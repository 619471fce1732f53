import Mathlib
import PipecatVoice.TurnPairs

/-!
# The checks of candidate pairs

In CHECKING every pass of `peer_connection_loop` counts against the pair in
progress, and every hundredth one asks the peer. A pair that has had its thousand
passes is given up for the next one; without a next one the connection fails.

* `bindingRequest`, `requests` — what `agent_connectivity_check` sends;
* `Trying` — the search after a number of passes without an answer;
* `Ordered` — what the pairs look like in every reachable state.

The lists are not bounded here. `agent.h` has ten places for remote candidates and a
hundred for pairs, and nothing checks that they suffice: the results are about the
code as long as they do.
-/

namespace PipecatVoice.TurnPairs

/-! ## The search, pass by pass -/

/-- `AGENT_CONNCHECK_PERIOD` -/
def conncheckPeriod : ℕ := 100

/-- The binding request of `agent_connectivity_check`: where it goes, if the pass
is one that sends it. -/
def bindingRequest (a : Agent) : List Address :=
  match a.nominatedPair with
  | none => []
  | some p =>
    if p.state = .inProgress ∧ p.conncheck % conncheckPeriod = 0 then [p.remote.addr] else []

/-- The binding requests of an action. -/
def requests (s : State) : Action → List Address
  | .check granted _ =>
    let selected := agentSelectCandidatePair granted s.agent
    if s.peer = .checking ∧ selected.2 then bindingRequest selected.1 else []
  | .describe .. | .live .. => []

/-- A pair that is given up. -/
def CandidatePair.tried (p : CandidatePair) : CandidatePair :=
  { p with conncheck := conncheckMax, state := .failed }

/-- A pair that has been waited for in `c` passes. -/
def CandidatePair.underWay (c : ℕ) (p : CandidatePair) : CandidatePair :=
  { p with conncheck := c, state := .inProgress }

/-- The search goes past the pairs that are given up. -/
theorem selectFrom_failed {failed : List CandidatePair} (hfailed : ∀ p ∈ failed, p.state = .failed)
    (rest : List CandidatePair) :
    ∀ i, selectFrom i (failed ++ rest) =
      (failed ++ (selectFrom (i + failed.length) rest).1,
        (selectFrom (i + failed.length) rest).2) := by
  induction failed with
  | nil => exact fun _ => rfl
  | cons p failed ih =>
    intro i
    have hstate := hfailed p List.mem_cons_self
    have hrest := ih (fun q hq => hfailed q (List.mem_cons_of_mem p hq)) (i + 1)
    rw [Nat.add_assoc, Nat.add_comm 1] at hrest
    rw [List.cons_append, selectFrom, hstate, hrest]
    rfl

/-- The pair in progress has time left. -/
theorem selectFrom_wait {p : CandidatePair} {c i : ℕ} (rest : List CandidatePair)
    (h : c + 1 < conncheckMax) :
    selectFrom i (p.underWay c :: rest) = (p.underWay (c + 1) :: rest, .wait) := by
  rw [selectFrom]
  exact if_pos h

/-- It has had its time. -/
theorem selectFrom_giveUp {p : CandidatePair} {c i : ℕ} (rest : List CandidatePair)
    (h : c + 1 = conncheckMax) :
    selectFrom i (p.underWay c :: rest) =
      (p.tried :: (selectFrom (i + 1) rest).1, (selectFrom (i + 1) rest).2) := by
  rw [selectFrom, CandidatePair.tried, ← h]
  exact if_neg (Nat.lt_irrefl _)

theorem tried_state {pairs : List CandidatePair} :
    ∀ p ∈ pairs.map CandidatePair.tried, p.state = .failed := by
  intro p hp
  obtain ⟨q, -, rfl⟩ := List.mem_map.mp hp
  rfl

/-- `agent_turn_set_permission` has nothing to do with the pairs. -/
theorem agentTurnSetPermission_pairs (granted : Bool) (peer : Address) (a : Agent) :
    (agentTurnSetPermission granted peer a).pairs = a.pairs ∧
      (agentTurnSetPermission granted peer a).nominated = a.nominated ∧
      (agentTurnSetPermission granted peer a).selected = a.selected := by
  rw [agentTurnSetPermission]
  split <;> exact ⟨rfl, rfl, rfl⟩

theorem agentUpdateCandidatePairs_pairs (granted : ℕ → Bool) (a : Agent) :
    (agentUpdateCandidatePairs granted a).pairs =
        a.pairs ++ candidatePairs a.locals a.remotes ∧
      (agentUpdateCandidatePairs granted a).nominated = a.nominated ∧
      (agentUpdateCandidatePairs granted a).selected = a.selected := by
  have hfold : ∀ (rs : List (Candidate × ℕ)) (a : Agent),
      let b := rs.foldl (fun a r => agentTurnSetPermission (granted r.2) r.1.addr a) a
      b.pairs = a.pairs ∧ b.nominated = a.nominated ∧ b.selected = a.selected := by
    intro rs
    induction rs with
    | nil => exact fun _ => ⟨rfl, rfl, rfl⟩
    | cons r rs ih =>
      intro a
      obtain ⟨hpairs, hnominated, hselected⟩ :=
        agentTurnSetPermission_pairs (granted r.2) r.1.addr a
      obtain ⟨hpairs', hnominated', hselected'⟩ :=
        ih (agentTurnSetPermission (granted r.2) r.1.addr a)
      exact ⟨hpairs'.trans hpairs, hnominated'.trans hnominated, hselected'.trans hselected⟩
  unfold agentUpdateCandidatePairs
  simp only
  split
  · exact hfold _ _
  · exact ⟨rfl, rfl, rfl⟩

/-- A search that nominates leaves the pairs as it says. -/
theorem agentSelectCandidatePair_nominate {a : Agent} {pairs : List CandidatePair} {i : ℕ}
    (granted : Bool) (hfound : selectFrom 0 a.pairs = (pairs, .nominate i)) :
    (agentSelectCandidatePair granted a).2 ∧
      (agentSelectCandidatePair granted a).1.pairs = pairs ∧
      (agentSelectCandidatePair granted a).1.nominated = some i ∧
      (agentSelectCandidatePair granted a).1.selected = a.selected := by
  simp only [agentSelectCandidatePair, hfound]
  split
  · rename_i p hp
    split
    · exact ⟨rfl, agentTurnSetPermission_pairs granted p.remote.addr
        { a with pairs := pairs, nominated := some i }⟩
    · exact ⟨rfl, rfl, rfl, rfl⟩
  · exact ⟨rfl, rfl, rfl, rfl⟩

/-- The search after `n` passes without an answer: the pairs before the one in
progress had all of theirs, the ones behind it none. -/
structure Trying (pairs : List CandidatePair) (n : ℕ) (a : Agent) : Prop where
  /-- the pairs, around the one in progress -/
  pairs : ∃ before p after c, pairs = before ++ p :: after ∧
    a.pairs = before.map CandidatePair.tried ++ p.underWay c :: after ∧
    c < conncheckMax ∧ n = conncheckMax * before.length + c + 1 ∧
    a.nominated = some before.length
  /-- none works yet -/
  selected : a.selected = none

/-- The search before the first pass, or after the `n`th. -/
def Searching (pairs : List CandidatePair) (n : ℕ) (a : Agent) : Prop :=
  (n = 0 ∧ a.pairs = pairs ∧ a.selected = none) ∨ Trying pairs n a

/-- The passes that the pairs are worth. -/
def budget (pairs : List CandidatePair) : ℕ := conncheckMax * pairs.length

/-- The pair that the pass after `n` others is spent on. -/
def pairAt (pairs : List CandidatePair) (n : ℕ) : Option CandidatePair :=
  pairs[n / conncheckMax]?

theorem conncheckMax_eq : conncheckMax = 1000 := rfl

/-- The pair in progress is the one whose turn it is, and has had the passes
since its turn began. -/
theorem Trying.nominatedPair {pairs : List CandidatePair} {n : ℕ} {a : Agent}
    (h : Trying pairs (n + 1) a) :
    ∃ p, pairAt pairs n = some p ∧ a.nominated = some (n / conncheckMax) ∧
      a.nominatedPair = some (p.underWay (n % conncheckMax)) := by
  obtain ⟨before, p, after, c, rfl, hpairs, hc, hn, hnominated⟩ := h.pairs
  have hdiv : n / conncheckMax = before.length := by
    rw [conncheckMax_eq] at hc hn ⊢
    omega
  have hmod : n % conncheckMax = c := by
    rw [conncheckMax_eq] at hc hn ⊢
    omega
  refine ⟨p, ?_, hdiv ▸ hnominated, ?_⟩
  · rw [pairAt, hdiv, List.getElem?_append_right (Nat.le_refl _), Nat.sub_self]
    rfl
  · have hlength : before.length = (before.map CandidatePair.tried).length :=
      List.length_map CandidatePair.tried |>.symm
    rw [Agent.nominatedPair, hnominated, hpairs, hmod, Option.bind_some, hlength,
      List.getElem?_append_right (Nat.le_refl _), Nat.sub_self]
    rfl

/-- The pair that is taken up after `before`. -/
theorem trying_of_nominate (granted : Bool) (before : List CandidatePair)
    {after : List CandidatePair} {p : CandidatePair} {a : Agent}
    (hfound : selectFrom 0 a.pairs =
      (before.map CandidatePair.tried ++ p.underWay 0 :: after, .nominate before.length))
    (hselected : a.selected = none) :
    (agentSelectCandidatePair granted a).2 ∧
      Trying (before ++ p :: after) (conncheckMax * before.length + 1)
        (agentSelectCandidatePair granted a).1 := by
  obtain ⟨hleft, hnow, hnominated, hselected'⟩ :=
    agentSelectCandidatePair_nominate granted hfound
  exact ⟨hleft, ⟨before, p, after, 0, rfl, hnow, by decide, rfl, hnominated⟩,
    hselected'.trans hselected⟩

/-- **One search** takes a pass from the pair whose turn it is, or finds that
none is left. -/
theorem Searching.select {pairs : List CandidatePair} {n : ℕ} {a : Agent}
    (hfrozen : ∀ p ∈ pairs, p.state = .frozen) (h : Searching pairs n a) (granted : Bool) :
    (n < budget pairs → (agentSelectCandidatePair granted a).2 ∧
      Trying pairs (n + 1) (agentSelectCandidatePair granted a).1) ∧
    (budget pairs ≤ n → (agentSelectCandidatePair granted a).2 = false ∧
      (agentSelectCandidatePair granted a).1.selected = none) := by
  obtain ⟨rfl, hpairs, hselected⟩ | ⟨⟨before, p, after, c, rfl, hpairs, hc, rfl, hnominated⟩,
    hselected⟩ := h
  · cases pairs with
    | nil =>
      refine ⟨fun h => absurd h (Nat.lt_irrefl 0), fun _ => ?_⟩
      simp only [agentSelectCandidatePair, hpairs, selectFrom]
      exact ⟨trivial, hselected⟩
    | cons p rest =>
      have hfound : selectFrom 0 a.pairs = (p.underWay 0 :: rest, .nominate 0) := by
        rw [hpairs, selectFrom, hfrozen p List.mem_cons_self]
        rfl
      refine ⟨fun _ => trying_of_nominate granted [] hfound hselected, fun h => ?_⟩
      rw [budget, conncheckMax_eq, List.length_cons] at h
      omega
  · have hsearch : selectFrom 0 a.pairs =
        (before.map CandidatePair.tried ++ (selectFrom before.length (p.underWay c :: after)).1,
          (selectFrom before.length (p.underWay c :: after)).2) := by
      rw [hpairs, selectFrom_failed tried_state, List.length_map, Nat.zero_add]
    have hbudget : budget (before ++ p :: after) =
        conncheckMax * before.length + conncheckMax + conncheckMax * after.length := by
      rw [budget, List.length_append, List.length_cons, Nat.mul_add, Nat.mul_succ]
      omega
    by_cases hmore : c + 1 < conncheckMax
    · -- the pair in progress has time left
      have hfound : selectFrom 0 a.pairs =
          (before.map CandidatePair.tried ++ p.underWay (c + 1) :: after, .wait) := by
        rw [hsearch, selectFrom_wait after hmore]
      refine ⟨fun _ => ?_, fun h => absurd h (by rw [hbudget]; omega)⟩
      simp only [agentSelectCandidatePair, hfound]
      exact ⟨trivial, ⟨before, p, after, c + 1, rfl, rfl, hmore, rfl, hnominated⟩, hselected⟩
    · have hlast : c + 1 = conncheckMax := by omega
      have hgiven : selectFrom 0 a.pairs =
          ((before ++ [p]).map CandidatePair.tried ++ (selectFrom (before.length + 1) after).1,
            (selectFrom (before.length + 1) after).2) := by
        rw [hsearch, selectFrom_giveUp after hlast, List.map_append, List.append_assoc]
        rfl
      cases after with
      | nil =>
        -- it was the last one
        refine ⟨fun h => absurd h ?_, fun _ => ?_⟩
        · rw [hbudget, List.length_nil]
          omega
        · simp only [agentSelectCandidatePair, hgiven, selectFrom]
          exact ⟨trivial, hselected⟩
      | cons q after =>
        have hq : q.state = .frozen :=
          hfrozen q (List.mem_append_right _ (List.mem_cons_of_mem p List.mem_cons_self))
        have hfound : selectFrom 0 a.pairs =
            ((before ++ [p]).map CandidatePair.tried ++ q.underWay 0 :: after,
              .nominate (before ++ [p]).length) := by
          rw [hgiven, selectFrom, hq, List.length_append, List.length_singleton]
          rfl
        have hnext := trying_of_nominate granted (before ++ [p]) hfound hselected
        have hcount : conncheckMax * (before ++ [p]).length + 1 =
            conncheckMax * before.length + c + 1 + 1 := by
          rw [List.length_append, List.length_singleton, Nat.mul_succ]
          omega
        rw [hcount, List.append_assoc] at hnext
        refine ⟨fun _ => hnext, fun h => absurd h ?_⟩
        rw [hbudget, List.length_cons, conncheckMax_eq]
        rw [conncheckMax_eq] at hlast
        omega

/-! ## What a run of passes comes to -/

/-- The actions of passes in CHECKING, each with whether the server grants a
permission and whether the peer's answer is received. -/
def passActions (passes : List (Bool × Bool)) : List Action := passes.map fun p => .check p.1 p.2

/-- The first of the passes that are left in which the peer answers. -/
def firstAnswer (left : ℕ) (passes : List (Bool × Bool)) : Option ℕ :=
  (passes.take left).findIdx? Prod.snd

/-- Who is asked in `k` passes after `n` others. -/
def asked (pairs : List CandidatePair) (n k : ℕ) : List Address :=
  ((List.range' n k).filter fun i => i % conncheckPeriod = 0).filterMap fun i =>
    (pairAt pairs i).map fun p => p.remote.addr

/-- What can be seen of the checks. -/
structure Outcome where
  /-- the state of the connection -/
  peer : PeerState
  /-- the pair that is used -/
  selected : Option ℕ
  /-- where binding requests went -/
  asked : List Address

/-- What passes come to after `n` others without an answer: an answer in time
connects by the pair whose turn it is; without one the connection fails, but not
before every pair had its turn. -/
def outcome (pairs : List CandidatePair) (n : ℕ) (passes : List (Bool × Bool)) : Outcome :=
  match firstAnswer (budget pairs - n) passes with
  | some k => ⟨.connected, some ((n + k) / conncheckMax), asked pairs n (k + 1)⟩
  | none =>
    { peer := if passes.length ≤ budget pairs - n then .checking else .failed
      selected := none
      asked := asked pairs n (min passes.length (budget pairs - n)) }

/-- What is seen of a run. -/
def observed (s : State) (as : List Action) : Outcome where
  peer := (Runs.run step s as).peer
  selected := (Runs.run step s as).agent.selected
  asked := Runs.collect step requests s as

theorem observed_cons (s : State) (a : Action) (as : List Action) :
    observed s (a :: as) =
      { observed (step s a) as with asked := requests s a ++ (observed (step s a) as).asked } :=
  rfl

/-- After CHECKING nothing more comes of the passes. -/
theorem observed_passActions {s : State} (h : s.peer ≠ .checking) (passes : List (Bool × Bool)) :
    observed s (passActions passes) = ⟨s.peer, s.agent.selected, []⟩ := by
  induction passes with
  | nil => rfl
  | cons p passes ih =>
    have hstep : step s (.check p.1 p.2) = s := by simp only [step, if_neg h]
    have hquiet : requests s (.check p.1 p.2) = [] := by
      simp only [requests, h, false_and, if_false]
    rw [passActions, List.map_cons, observed_cons, hstep, hquiet]
    exact ih

theorem asked_add (pairs : List CandidatePair) (n j k : ℕ) :
    asked pairs n (j + k) = asked pairs n j ++ asked pairs (n + j) k := by
  rw [asked, ← List.range'_append_1, List.filter_append, List.filterMap_append]
  rfl

theorem asked_succ (pairs : List CandidatePair) (n k : ℕ) :
    asked pairs n (k + 1) = asked pairs n 1 ++ asked pairs (n + 1) k := by
  rw [Nat.add_comm, asked_add]

theorem asked_one (pairs : List CandidatePair) (n : ℕ) :
    asked pairs n 1 =
      if n % conncheckPeriod = 0 then
        ((pairAt pairs n).map fun p => p.remote.addr).toList
      else [] := by
  rw [asked, List.range'_one]
  by_cases hn : n % conncheckPeriod = 0
  · rw [List.filter_cons_of_pos (by simpa using hn), List.filter_nil, if_pos hn]
    cases h : pairAt pairs n <;> simp [h]
  · rw [List.filter_cons_of_neg (by simpa using hn), List.filter_nil, if_neg hn]
    rfl

theorem firstAnswer_cons (left : ℕ) (p : Bool × Bool) (passes : List (Bool × Bool)) :
    firstAnswer (left + 1) (p :: passes) =
      if p.2 then some 0 else (firstAnswer left passes).map (· + 1) := by
  rw [firstAnswer, List.take_succ_cons, List.findIdx?_cons]
  rfl

/-- The pass after `n` others asks when a multiple of the period has gone by. -/
theorem Trying.bindingRequest {pairs : List CandidatePair} {n : ℕ} {a : Agent}
    (h : Trying pairs (n + 1) a) : bindingRequest a = asked pairs n 1 := by
  obtain ⟨p, hp, -, hnominated⟩ := h.nominatedPair
  have hperiod : n % conncheckMax % conncheckPeriod = n % conncheckPeriod :=
    Nat.mod_mod_of_dvd n (by decide)
  rw [TurnPairs.bindingRequest, hnominated, asked_one, hp]
  simp only [CandidatePair.underWay, true_and, hperiod, Option.map_some, Option.toList_some]

/-- The check of the pair in progress, by what is received. -/
theorem Trying.check {pairs : List CandidatePair} {n : ℕ} {a : Agent}
    (h : Trying pairs (n + 1) a) (answered : Bool) :
    (agentConnectivityCheck answered a).2 = answered ∧
      if answered then (agentConnectivityCheck answered a).1.selected = some (n / conncheckMax)
      else (agentConnectivityCheck answered a).1 = a := by
  obtain ⟨p, -, hindex, hpair⟩ := h.nominatedPair
  rw [Agent.nominatedPair, hindex, Option.bind_some] at hpair
  cases answered with
  | false => simp [agentConnectivityCheck, hindex, hpair]
  | true => simp [agentConnectivityCheck, hindex, hpair, CandidatePair.underWay]

/-- **A run of passes** without an answer so far. -/
theorem observed_checking {pairs : List CandidatePair} (hfrozen : ∀ p ∈ pairs, p.state = .frozen)
    (passes : List (Bool × Bool)) :
    ∀ {n : ℕ} {a : Agent}, Searching pairs n a →
      observed ⟨.checking, a⟩ (passActions passes) = outcome pairs n passes := by
  induction passes with
  | nil =>
    intro n a h
    have hselected : a.selected = none := by
      obtain ⟨-, -, hselected⟩ | ⟨-, hselected⟩ := h
      · exact hselected
      · exact hselected
    simp [observed, passActions, outcome, firstAnswer, Runs.run, Runs.collect, hselected, asked]
  | cons p passes ih =>
    intro n a h
    obtain ⟨granted, answered⟩ := p
    obtain ⟨hmore, hnone⟩ := h.select hfrozen granted
    rw [passActions, List.map_cons, observed_cons]
    by_cases hleft : n < budget pairs
    · obtain ⟨hsome, htrying⟩ := hmore hleft
      obtain ⟨hresult, hafter⟩ := htrying.check answered
      have hworth : budget pairs - n = budget pairs - (n + 1) + 1 := by omega
      have hasks : requests ⟨.checking, a⟩ (.check granted answered) = asked pairs n 1 := by
        simp only [requests, hsome, and_self, if_true]
        exact htrying.bindingRequest
      cases answered with
      | true =>
        have hstep : step ⟨.checking, a⟩ (.check granted true) = ⟨.connected,
            (agentConnectivityCheck true (agentSelectCandidatePair granted a).1).1⟩ := by
          simp only [step, checking, if_true, hsome, hresult]
        have hend := observed_passActions (s := step ⟨.checking, a⟩ (.check granted true))
          (by rw [hstep]; exact fun hpeer => PeerState.noConfusion hpeer) passes
        rw [passActions] at hend
        rw [hend, hstep, hasks, outcome, hworth, firstAnswer_cons, if_pos rfl]
        simp only [if_true] at hafter
        simp only [hafter, Nat.add_zero, Nat.zero_add, List.append_nil]
      | false =>
        simp only [Bool.false_eq_true, if_false] at hafter
        have hstep : step ⟨.checking, a⟩ (.check granted false) =
            ⟨.checking, (agentSelectCandidatePair granted a).1⟩ := by
          simp only [step, checking, if_true, hsome, hresult, hafter, Bool.false_eq_true, if_false]
        have hrest := ih (.inr htrying : Searching pairs (n + 1) _)
        rw [passActions] at hrest
        rw [hstep, hrest, hasks, outcome, outcome, hworth, firstAnswer_cons]
        cases firstAnswer (budget pairs - (n + 1)) passes with
        | none =>
          simp only [Bool.false_eq_true, if_false, Option.map_none, List.length_cons,
            Nat.add_le_add_iff_right, Nat.add_min_add_right, ← asked_succ]
        | some k =>
          simp only [Bool.false_eq_true, if_false, Option.map_some, ← asked_succ,
            Nat.add_assoc, Nat.add_comm 1 k]
    · obtain ⟨hover, hselected⟩ := hnone (Nat.le_of_not_lt hleft)
      have hworth : budget pairs - n = 0 := by omega
      have hstep : step ⟨.checking, a⟩ (.check granted answered) =
          ⟨.failed, (agentSelectCandidatePair granted a).1⟩ := by
        simp only [step, checking, if_true, hover, Bool.false_eq_true, if_false]
      have hasks : requests ⟨.checking, a⟩ (.check granted answered) = [] := by
        simp only [requests, hover, Bool.false_eq_true, and_false, if_false]
      have hend := observed_passActions (s := step ⟨.checking, a⟩ (.check granted answered))
        (by rw [hstep]; exact fun hpeer => PeerState.noConfusion hpeer) passes
      rw [passActions] at hend
      rw [hend, hstep, hasks, outcome, hworth]
      simp [firstAnswer, hselected, asked]

theorem candidatePairs_frozen (locals remotes : List Candidate) :
    ∀ p ∈ candidatePairs locals remotes, p.state = .frozen := by
  intro p hp
  obtain ⟨l, -, hmap⟩ := List.mem_flatMap.mp hp
  obtain ⟨r, -, rfl⟩ := List.mem_map.mp hmap
  rfl

/-- The first description begins a search of the pairs it makes. -/
theorem searching_describe (g : Gathered) (remotes : List Candidate) (permits : ℕ → Bool) :
    ∃ a, step (start g) (.describe remotes permits) = ⟨.checking, a⟩ ∧
      Searching (candidatePairs g.locals remotes) 0 a := by
  obtain ⟨hpairs, -, hselected⟩ := agentUpdateCandidatePairs_pairs permits
    { (start g).agent with remotes := (start g).agent.remotes ++ remotes }
  exact ⟨_, rfl, .inl ⟨rfl, hpairs, hselected⟩⟩

/-- **The checks, exactly**: once the answer has made its candidate pairs, the
peer's first binding response within a thousand passes a pair connects, by the pair
whose turn it is; without one the connection is CHECKING for that many passes and
FAILED from the next one on. Binding requests go, each hundredth pass, to the pair
whose turn it is. -/
theorem checks_outcome (g : Gathered) (remotes : List Candidate) (permits : ℕ → Bool)
    (passes : List (Bool × Bool)) :
    observed (start g) (.describe remotes permits :: passActions passes) =
      outcome (candidatePairs g.locals remotes) 0 passes := by
  obtain ⟨a, hstep, hsearch⟩ := searching_describe g remotes permits
  rw [observed_cons, hstep,
    observed_checking (candidatePairs_frozen g.locals remotes) passes hsearch]
  rfl

/-- The turn of the first pair asks it as often as the period fits in. -/
theorem asked_turn (p : CandidatePair) (pairs : List CandidatePair) :
    asked (p :: pairs) 0 conncheckMax =
      List.replicate (conncheckMax / conncheckPeriod) p.remote.addr := by
  have hasks : ((List.range' 0 conncheckMax).filter fun i => i % conncheckPeriod = 0) =
      [0, 100, 200, 300, 400, 500, 600, 700, 800, 900] := by decide +kernel
  rw [asked, hasks]
  rfl

/-- The turns behind the first one are those of the pairs behind the first one. -/
theorem asked_behind (p : CandidatePair) (pairs : List CandidatePair) (k : ℕ) :
    asked (p :: pairs) conncheckMax k = asked pairs 0 k := by
  have hshift : List.range' conncheckMax k = (List.range' 0 k).map (conncheckMax + ·) := by
    rw [List.map_add_range', Nat.add_zero]
  have hperiod : ∀ i, (conncheckMax + i) % conncheckPeriod = i % conncheckPeriod := fun i =>
    Nat.mul_add_mod conncheckPeriod 10 i
  have hpair : ∀ i, pairAt (p :: pairs) (conncheckMax + i) = pairAt pairs i := by
    intro i
    rw [pairAt, Nat.add_div_left i (by decide), List.getElem?_cons_succ]
    rfl
  rw [asked, hshift, List.filter_map, List.filterMap_map]
  simp only [Function.comp_def, hperiod, hpair]
  rfl

/-- Every pair is asked ten times, one pair after the other. -/
theorem asked_budget (pairs : List CandidatePair) :
    asked pairs 0 (budget pairs) = pairs.flatMap fun p =>
      List.replicate (conncheckMax / conncheckPeriod) p.remote.addr := by
  induction pairs with
  | nil => rfl
  | cons p pairs ih =>
    have hbudget : budget (p :: pairs) = conncheckMax + budget pairs := by
      rw [budget, List.length_cons, Nat.mul_succ, Nat.add_comm]
      rfl
    rw [hbudget, asked_add, asked_turn, Nat.zero_add, asked_behind, ih, List.flatMap_cons]

/-- **Without an answer** the connection is CHECKING for as many passes as the
pairs are worth and FAILED after that, and before it fails every pair has been asked
ten times, one pair after the other. -/
theorem checks_exhausted (g : Gathered) (remotes : List Candidate) (permits : ℕ → Bool)
    (grants : List Bool) :
    (Runs.run step (start g) (.describe remotes permits ::
        passActions (grants.map fun granted => (granted, false)))).peer =
      (if grants.length ≤ budget (candidatePairs g.locals remotes) then .checking else .failed) ∧
    (budget (candidatePairs g.locals remotes) ≤ grants.length →
      Runs.collect step requests (start g) (.describe remotes permits ::
          passActions (grants.map fun granted => (granted, false))) =
        (candidatePairs g.locals remotes).flatMap fun p =>
          List.replicate (conncheckMax / conncheckPeriod) p.remote.addr) := by
  obtain ⟨a, hstep, hsearch⟩ := searching_describe g remotes permits
  have hrun := observed_checking (candidatePairs_frozen g.locals remotes)
    (grants.map fun granted => (granted, false)) hsearch
  have hnone : firstAnswer (budget (candidatePairs g.locals remotes) - 0)
      (grants.map fun granted => (granted, false)) = none := by
    rw [firstAnswer, List.findIdx?_eq_none_iff]
    intro p hp
    obtain ⟨granted, -, rfl⟩ := List.mem_map.mp (List.mem_of_mem_take hp)
    rfl
  rw [outcome, hnone, Nat.sub_zero, List.length_map] at hrun
  simp only [observed, Outcome.mk.injEq] at hrun
  obtain ⟨hpeer, -, hasked⟩ := hrun
  refine ⟨?_, fun hlong => ?_⟩
  · rw [Runs.run, List.foldl_cons, hstep]
    exact hpeer
  · rw [Runs.collect, hstep, hasked, Nat.min_eq_right hlong, asked_budget]
    rfl

/-! ## Another description after a pair has worked -/

/-- The pairs behind those that are given up. -/
inductive Rest (a : Agent) (given : ℕ) : List CandidatePair → Prop where
  /-- none is in progress -/
  | waiting {rest : List CandidatePair} (frozen : ∀ p ∈ rest, p.state = .frozen) :
    Rest a given rest
  /-- one is in progress -/
  | trying {p : CandidatePair} {rest : List CandidatePair} (progress : p.state = .inProgress)
    (nominated : a.nominated = some given) (frozen : ∀ p ∈ rest, p.state = .frozen) :
    Rest a given (p :: rest)
  /-- one works -/
  | works {p : CandidatePair} {rest : List CandidatePair} (succeeded : p.state = .succeeded)
    (nominated : a.nominated = some given) (frozen : ∀ p ∈ rest, p.state = .frozen) :
    Rest a given (p :: rest)

/-- The pairs in order: those that are given up, at most one in progress or
working, and those whose turn has not come. -/
def Ordered (a : Agent) : Prop :=
  ∃ given rest, a.pairs = given ++ rest ∧ (∀ p ∈ given, p.state = .failed) ∧
    Rest a given.length rest

/-- The nominated pair works, and those before it are given up. -/
def Works (a : Agent) : Prop :=
  ∃ given p rest, a.pairs = given ++ p :: rest ∧ (∀ q ∈ given, q.state = .failed) ∧
    p.state = .succeeded ∧ a.nominated = some given.length

/-- Frozen pairs may be added. -/
theorem Ordered.append {a b : Agent} (h : Ordered a) {new : List CandidatePair}
    (hnew : ∀ p ∈ new, p.state = .frozen) (hpairs : b.pairs = a.pairs ++ new)
    (hnominated : b.nominated = a.nominated) : Ordered b := by
  obtain ⟨given, rest, hsplit, hgiven, hrest⟩ := h
  have happend : ∀ {rest : List CandidatePair}, (∀ p ∈ rest, p.state = .frozen) →
      ∀ p ∈ rest ++ new, p.state = .frozen := fun hfrozen p hp =>
    (List.mem_append.mp hp).elim (hfrozen p) (hnew p)
  refine ⟨given, rest ++ new, by rw [hpairs, hsplit, List.append_assoc], hgiven, ?_⟩
  cases hrest with
  | waiting hfrozen => exact .waiting (happend hfrozen)
  | trying hprogress hnow hfrozen =>
    exact .trying hprogress (hnominated.trans hnow) (happend hfrozen)
  | works hsucceeded hnow hfrozen =>
    exact .works hsucceeded (hnominated.trans hnow) (happend hfrozen)

theorem Works.append {a b : Agent} (h : Works a) {new : List CandidatePair}
    (hpairs : b.pairs = a.pairs ++ new) (hnominated : b.nominated = a.nominated) : Works b := by
  obtain ⟨given, p, rest, hsplit, hgiven, hsucceeded, hnow⟩ := h
  refine ⟨given, p, rest ++ new, ?_, hgiven, hsucceeded, hnominated.trans hnow⟩
  rw [hpairs, hsplit, List.append_assoc]
  rfl

/-- The search, where no pair is in progress. -/
theorem ordered_select_waiting {a : Agent} {given rest : List CandidatePair} (granted : Bool)
    (hgiven : ∀ p ∈ given, p.state = .failed) (hfrozen : ∀ p ∈ rest, p.state = .frozen)
    (hfound : selectFrom 0 a.pairs = (given ++ (selectFrom given.length rest).1,
      (selectFrom given.length rest).2)) :
    Ordered (agentSelectCandidatePair granted a).1 := by
  cases rest with
  | nil =>
    simp only [agentSelectCandidatePair, hfound, selectFrom]
    exact ⟨given, [], rfl, hgiven, .waiting fun _ hp => absurd hp List.not_mem_nil⟩
  | cons q rest =>
    rw [selectFrom, hfrozen q List.mem_cons_self] at hfound
    obtain ⟨-, hpairs, hnominated, -⟩ := agentSelectCandidatePair_nominate granted hfound
    exact ⟨given, _, hpairs, hgiven,
      .trying rfl hnominated fun p hp => hfrozen p (List.mem_cons_of_mem q hp)⟩

/-- The search keeps the order. -/
theorem Ordered.select {a : Agent} (h : Ordered a) (granted : Bool) :
    Ordered (agentSelectCandidatePair granted a).1 := by
  obtain ⟨given, rest, hsplit, hgiven, hrest⟩ := h
  have hfound := selectFrom_failed hgiven rest 0
  rw [← hsplit, Nat.zero_add] at hfound
  cases hrest with
  | waiting hfrozen => exact ordered_select_waiting granted hgiven hfrozen hfound
  | @trying p rest hprogress hnow hfrozen =>
    by_cases hmore : p.conncheck + 1 < conncheckMax
    · have hwait : selectFrom 0 a.pairs =
          (given ++ { p with conncheck := p.conncheck + 1 } :: rest, .wait) := by
        rw [hfound, selectFrom, hprogress]
        simp only [if_pos hmore]
      simp only [agentSelectCandidatePair, hwait]
      exact ⟨given, _, rfl, hgiven, .trying hprogress hnow hfrozen⟩
    · have hgive : selectFrom 0 a.pairs =
          ((given ++ [{ p with conncheck := p.conncheck + 1, state := .failed }]) ++
              (selectFrom (given ++ [{ p with conncheck := p.conncheck + 1,
                                               state := .failed }]).length rest).1,
            (selectFrom (given ++ [{ p with conncheck := p.conncheck + 1,
                                             state := .failed }]).length rest).2) := by
        rw [hfound, selectFrom, hprogress, List.length_append, List.length_singleton,
          List.append_assoc]
        simp only [if_neg hmore]
        rfl
      refine ordered_select_waiting granted ?_ hfrozen hgive
      intro q hq
      obtain hold | hlast := List.mem_append.mp hq
      · exact hgiven q hold
      · rw [List.mem_singleton.mp hlast]
  | @works p rest hsucceeded hnow hfrozen =>
    have hselect : selectFrom 0 a.pairs = (given ++ p :: rest, .select given.length) := by
      rw [hfound, selectFrom, hsucceeded]
    simp only [agentSelectCandidatePair, hselect]
    exact ⟨given, p :: rest, rfl, hgiven, .works hsucceeded hnow hfrozen⟩

/-- Where a pair works, the search finds it and changes nothing else. -/
theorem Works.select {a : Agent} (h : Works a) (granted : Bool) :
    (agentSelectCandidatePair granted a).2 ∧ Works (agentSelectCandidatePair granted a).1 := by
  obtain ⟨given, p, rest, hsplit, hgiven, hsucceeded, hnow⟩ := h
  have hselect : selectFrom 0 a.pairs = (given ++ p :: rest, .select given.length) := by
    rw [hsplit, selectFrom_failed hgiven, selectFrom, hsucceeded, Nat.zero_add]
  simp only [agentSelectCandidatePair, hselect]
  exact ⟨trivial, given, p, rest, rfl, hgiven, hsucceeded, hnow⟩

theorem Works.nominatedPair {a : Agent} (h : Works a) :
    ∃ k p, a.nominated = some k ∧ a.pairs[k]? = some p ∧ p.state = .succeeded := by
  obtain ⟨given, p, rest, hsplit, -, hsucceeded, hnow⟩ := h
  refine ⟨given.length, p, hnow, ?_, hsucceeded⟩
  rw [hsplit, List.getElem?_append_right (Nat.le_refl _), Nat.sub_self]
  rfl

/-- A pair that works is not checked again: nothing is sent, and no answer counts. -/
theorem Works.check {a : Agent} (h : Works a) (answered : Bool) :
    agentConnectivityCheck answered a = (a, false) ∧ bindingRequest a = [] := by
  obtain ⟨k, p, hnow, hpair, hsucceeded⟩ := h.nominatedPair
  refine ⟨?_, ?_⟩
  · simp [agentConnectivityCheck, hnow, hpair, hsucceeded]
  · simp [bindingRequest, Agent.nominatedPair, hnow, hpair, hsucceeded]

/-- The check keeps the order, and where it succeeds the nominated pair works. -/
theorem Ordered.check {a : Agent} (h : Ordered a) (answered : Bool) :
    Ordered (agentConnectivityCheck answered a).1 ∧
      ((agentConnectivityCheck answered a).2 → Works (agentConnectivityCheck answered a).1) := by
  simp only [agentConnectivityCheck]
  split
  · exact ⟨h, fun hfalse => absurd hfalse Bool.false_ne_true⟩
  · next k hk =>
    split
    · exact ⟨h, fun hfalse => absurd hfalse Bool.false_ne_true⟩
    · next p hp =>
      split
      · next hsucceeds =>
        obtain ⟨given, rest, hsplit, hgiven, hrest⟩ := h
        -- only the pair in progress can be the one that is checked
        cases hrest with
        | waiting hfrozen =>
          have hmem := List.mem_of_getElem? hp
          rw [hsplit] at hmem
          obtain hold | hnew := List.mem_append.mp hmem
          · exact absurd ((hgiven p hold).symm.trans hsucceeds.1) (by decide)
          · exact absurd ((hfrozen p hnew).symm.trans hsucceeds.1) (by decide)
        | @trying q rest hprogress hnow hfrozen =>
          obtain rfl : k = given.length := Option.some.inj (hk.symm.trans hnow)
          obtain rfl : q = p := by
            rw [hsplit, List.getElem?_append_right (Nat.le_refl _), Nat.sub_self] at hp
            exact Option.some.inj hp
          have hset : a.pairs.set given.length { q with state := .succeeded } =
              given ++ { q with state := .succeeded } :: rest := by
            rw [hsplit, List.set_append_right _ _ (Nat.le_refl _), Nat.sub_self]
            rfl
          exact ⟨⟨given, _, hset, hgiven, .works rfl hnow hfrozen⟩,
            fun _ => ⟨given, _, rest, hset, hgiven, rfl, hnow⟩⟩
        | @works q rest hsucceeded hnow hfrozen =>
          obtain rfl : k = given.length := Option.some.inj (hk.symm.trans hnow)
          rw [hsplit, List.getElem?_append_right (Nat.le_refl _), Nat.sub_self] at hp
          obtain rfl : q = p := Option.some.inj hp
          exact absurd (hsucceeded.symm.trans hsucceeds.1) (by decide)
      · exact ⟨h, fun hfalse => absurd hfalse Bool.false_ne_true⟩

/-- What holds in every reachable state. -/
structure ChecksInv (s : State) : Prop where
  /-- the pairs are in order -/
  ordered : Ordered s.agent
  /-- an established connection has a pair that works -/
  works : s.established → Works s.agent

theorem checksInv_start (g : Gathered) : ChecksInv (start g) :=
  ⟨⟨[], [], rfl, fun _ hp => absurd hp List.not_mem_nil,
    .waiting fun _ hp => absurd hp List.not_mem_nil⟩, nofun⟩

/-- One action keeps it. -/
theorem ChecksInv.step {s : State} (h : ChecksInv s) (a : Action) :
    ChecksInv (TurnPairs.step s a) := by
  cases a with
  | describe remotes permits =>
    obtain ⟨hpairs, hnominated, -⟩ := agentUpdateCandidatePairs_pairs permits
      { s.agent with remotes := s.agent.remotes ++ remotes }
    exact ⟨h.ordered.append (candidatePairs_frozen _ _) hpairs hnominated,
      fun hup => absurd hup Bool.false_ne_true⟩
  | check granted answered =>
    simp only [TurnPairs.step]
    split
    · obtain ⟨hordered, hworks⟩ := (h.ordered.select granted).check answered
      simp only [checking]
      split
      · refine ⟨hordered, fun hup => hworks ?_⟩
        by_contra hfalse
        rw [if_neg hfalse] at hup
        exact absurd hup Bool.false_ne_true
      · exact ⟨h.ordered.select granted, fun hup => absurd hup Bool.false_ne_true⟩
    · exact h
  | live handshake consentLost =>
    obtain ⟨peer, agent⟩ := s
    cases peer with
    | connected => exact ⟨h.ordered, fun _ => h.works rfl⟩
    | completed => exact ⟨h.ordered, fun _ => h.works rfl⟩
    | new | checking | failed | disconnected | closed => exact h

/-- A pair that works does so from then on, whatever becomes of the connection. -/
theorem Works.step {s : State} (h : Works s.agent) (a : Action) :
    Works (TurnPairs.step s a).agent := by
  cases a with
  | describe remotes permits =>
    obtain ⟨hpairs, hnominated, -⟩ := agentUpdateCandidatePairs_pairs permits
      { s.agent with remotes := s.agent.remotes ++ remotes }
    exact h.append hpairs hnominated
  | check granted answered =>
    simp only [TurnPairs.step]
    split
    · obtain ⟨hfound, hstill⟩ := h.select granted
      obtain ⟨hcheck, -⟩ := hstill.check answered
      simp only [checking, hfound, if_true, hcheck]
      exact hstill
    · exact h
  | live handshake consentLost =>
    obtain ⟨peer, agent⟩ := s
    cases peer <;> exact h

/-- A connection that was ever established has a pair that works. -/
theorem works_of_established {g : Gathered} {as : List Action} {n : ℕ}
    (hup : (Runs.run step (start g) (as.take n)).established) :
    Works (Runs.run step (start g) as).agent := by
  have hinv : ChecksInv (Runs.run step (start g) (as.take n)) :=
    Runs.run_induct (fun _ a h => h.step a) _ (checksInv_start g)
  have hrest : Runs.run step (start g) as =
      Runs.run step (Runs.run step (start g) (as.take n)) (as.drop n) := by
    rw [Runs.run, Runs.run, Runs.run, ← List.foldl_append, List.take_append_drop]
  rw [hrest]
  exact Runs.run_induct (I := fun s : State => Works s.agent) (fun _ a h => h.step a) _
    (hinv.works hup)

/-- A connection in CHECKING with a pair that works. -/
def Stuck (s : State) : Prop := s.peer = .checking ∧ Works s.agent

/-- No action gets it out of CHECKING, or asks the peer. -/
theorem Stuck.step {s : State} (h : Stuck s) (a : Action) :
    Stuck (TurnPairs.step s a) ∧ requests s a = [] := by
  obtain ⟨hpeer, hworks⟩ := h
  cases a with
  | describe remotes permits =>
    obtain ⟨hpairs, hnominated, -⟩ := agentUpdateCandidatePairs_pairs permits
      { s.agent with remotes := s.agent.remotes ++ remotes }
    exact ⟨⟨rfl, hworks.append hpairs hnominated⟩, rfl⟩
  | check granted answered =>
    obtain ⟨hfound, hstill⟩ := hworks.select granted
    obtain ⟨hcheck, hquiet⟩ := hstill.check answered
    refine ⟨?_, ?_⟩
    · simp only [TurnPairs.step, hpeer, if_true, checking, hfound, hcheck]
      exact ⟨rfl, hstill⟩
    · simp only [requests, hpeer, hfound, hquiet, ite_self]
  | live handshake consentLost =>
    simp only [TurnPairs.step, hpeer]
    exact ⟨⟨hpeer, hworks⟩, rfl⟩

theorem Stuck.run {s : State} (h : Stuck s) (as : List Action) :
    Stuck (Runs.run TurnPairs.step s as) ∧
      Runs.collect TurnPairs.step requests s as = [] := by
  induction as generalizing s with
  | nil => exact ⟨h, rfl⟩
  | cons a as ih =>
    obtain ⟨hnext, hquiet⟩ := h.step a
    obtain ⟨hrun, hrest⟩ := ih hnext
    refine ⟨hrun, ?_⟩
    rw [Runs.collect, hquiet, hrest]
    rfl

/-- **A connection is described once**: a further answer for a connection that was ever
established, though it may have been closed since, puts it into CHECKING for good.
Whatever happens then, it is in CHECKING, and it asks the peer nothing. -/
theorem described_again (g : Gathered) (as : List Action) (remotes : List Candidate)
    (permits : ℕ → Bool) (hup : ∃ n, (Runs.run step (start g) (as.take n)).established)
    (bs : List Action) :
    (Runs.run step (Runs.run step (start g) as) (.describe remotes permits :: bs)).peer =
        .checking ∧
      Runs.collect step requests (Runs.run step (start g) as) (.describe remotes permits :: bs) =
        [] := by
  obtain ⟨n, hup⟩ := hup
  have hstuck : Stuck (step (Runs.run step (start g) as) (.describe remotes permits)) :=
    ⟨rfl, (works_of_established hup).step (.describe remotes permits)⟩
  obtain ⟨hrun, hquiet⟩ := hstuck.run bs
  exact ⟨hrun.1, hquiet⟩

/-- A relay's pair works at the first pass, the connection is completed and loses its
consent, and then the peer's answer is taken once more. -/
theorem described_again_relay :
    (Runs.run step (start oneRelay) [.describe twoRemotes fun _ => true, .check true true,
      .live true false, .live false true]).peer = .closed ∧
    ∀ bs : List Action, (Runs.run step (Runs.run step (start oneRelay)
      [.describe twoRemotes fun _ => true, .check true true, .live true false, .live false true])
        (.describe [] (fun _ => true) :: bs)).peer = .checking :=
  ⟨by decide +kernel, fun bs => (described_again oneRelay
    [.describe twoRemotes fun _ => true, .check true true, .live true false, .live false true] []
    (fun _ => true) ⟨3, by decide +kernel⟩ bs).1⟩

end PipecatVoice.TurnPairs
