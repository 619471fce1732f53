import Mathlib.Data.List.Basic

/-!
# A stream fed to a receiver through a queue

A producer makes items, a queue holds those that have not left yet, oldest first,
and a receiver is handed what leaves at the front. A full queue drops its oldest
items. The producer can be reset, and the receiver replaced, at any time.

A receiver follows the producer if what it is handed are the first items since
the latest reset, in order and without a gap. `handed_prefix_iff` says when: no
item was dropped since the reset, none had left before the receiver came, and the
receiver had been handed none before the reset.
-/

/-- An item, told apart from the others by its serial number. -/
structure Feed.Item (α : Type) where
  /-- how many items were made before -/
  serial : ℕ
  /-- what it carries -/
  value : α
  deriving DecidableEq

/-- A producer, the queue, and a receiver. -/
structure Feed (α : Type) where
  /-- items made so far -/
  count : ℕ
  /-- the items made since the latest reset -/
  produced : List (Feed.Item α)
  /-- how many of them have left the queue -/
  gone : ℕ
  /-- what the receiver was handed -/
  handed : List (Feed.Item α)
  /-- an item was dropped since the latest reset -/
  dropped : Bool
  /-- an item of the stream had left before the receiver came -/
  late : Bool
  /-- the receiver had been handed items before the latest reset -/
  stale : Bool

namespace Feed

variable {α : Type}

/-- Nothing made, nothing handed. -/
def empty : Feed α := ⟨0, [], 0, [], false, false, false⟩

/-- What is in the queue. -/
def queue (f : Feed α) : List α := (f.produced.drop f.gone).map Item.value

/-- The oldest `k` items are dropped. -/
def skip (f : Feed α) (k : ℕ) : Feed α :=
  { f with gone := f.gone + k, dropped := f.dropped || k ≠ 0 }

/-- An item is made. -/
def make (f : Feed α) (a : α) : Feed α :=
  { f with count := f.count + 1, produced := f.produced ++ [⟨f.count, a⟩] }

/-- The item at the front of the queue, with the value `a` it was found to carry. -/
def front (f : Feed α) (a : α) : Item α := ⟨f.produced[f.gone]?.elim 0 Item.serial, a⟩

/-- The receiver is handed the item at the front. -/
def hand (f : Feed α) (a : α) : Feed α :=
  { f with gone := f.gone + 1, handed := f.handed ++ [f.front a] }

/-- The producer is reset, and the queue emptied. -/
def reset (f : Feed α) : Feed α :=
  { f with
    produced := []
    gone := 0
    dropped := false
    late := false
    stale := !f.handed.isEmpty }

/-- A new receiver comes. -/
def switch (f : Feed α) : Feed α :=
  { f with handed := [], late := f.gone ≠ 0, stale := false }

theorem length_queue (f : Feed α) : f.queue.length = f.produced.length - f.gone := by
  rw [queue, List.length_map, List.length_drop]

@[simp] theorem queue_skip (f : Feed α) (k : ℕ) : (f.skip k).queue = f.queue.drop k := by
  rw [queue, queue, ← List.map_drop, List.drop_drop]
  rfl

theorem queue_make {f : Feed α} (h : f.gone ≤ f.produced.length) (a : α) :
    (f.make a).queue = f.queue ++ [a] := by
  simp only [queue, make, List.drop_append_of_le_length h, List.map_append, List.map_singleton]

@[simp] theorem queue_hand (f : Feed α) (a : α) : (f.hand a).queue = f.queue.tail := by
  rw [queue, queue, ← List.map_tail, List.tail_drop]
  rfl

/-- What the flags are to the lists. -/
structure Inv (f : Feed α) : Prop where
  /-- serial numbers count up to the present -/
  serial : ∀ i e, f.produced[i]? = some e → e.serial + f.produced.length = f.count + i
  /-- what was handed was made before -/
  old : ∀ e ∈ f.handed, e.serial < f.count
  /-- no more have left than were made -/
  gone_le : f.gone ≤ f.produced.length
  /-- an item that is dropped is gone -/
  dropped : f.dropped → 0 < f.gone
  /-- without a flag, all that is gone was handed -/
  whole : f.dropped = false → f.late = false → f.stale = false →
    f.handed = f.produced.take f.gone
  /-- a receiver that missed an item was handed fewer than are gone -/
  short : f.stale = false → f.dropped ∨ f.late → f.handed.length < f.gone
  /-- a receiver of an earlier stream was handed an item of it -/
  stale : f.stale → ∃ e ∈ f.handed, e.serial + f.produced.length < f.count

theorem inv_empty : (empty : Feed α).Inv :=
  ⟨nofun, nofun, Nat.le_refl _, nofun, fun _ _ _ => rfl, nofun, nofun⟩

variable {f : Feed α}

theorem Inv.skip (h : f.Inv) {k : ℕ} (hk : f.gone + k ≤ f.produced.length) :
    (f.skip k).Inv where
  serial := h.serial
  old := h.old
  gone_le := hk
  dropped := by
    intro hdropped
    show 0 < f.gone + k
    rcases Nat.eq_zero_or_pos k with rfl | hpos
    · exact h.dropped (by simpa [Feed.skip] using hdropped)
    · omega
  whole := by
    rintro hdropped hlate hstale
    obtain ⟨hnone, rfl⟩ : f.dropped = false ∧ k = 0 := by simpa [Feed.skip] using hdropped
    exact h.whole hnone hlate hstale
  short := by
    rintro hstale hmissed
    show f.handed.length < f.gone + k
    by_cases hold : f.dropped ∨ f.late
    · exact Nat.lt_of_lt_of_le (h.short hstale hold) (Nat.le_add_right _ _)
    · -- the first item that is missed
      obtain ⟨hdropped, hlate⟩ : f.dropped = false ∧ f.late = false := by simpa using hold
      have hpos : k ≠ 0 := by simpa [Feed.skip, hdropped, hlate] using hmissed
      rw [h.whole hdropped hlate hstale, List.length_take]
      omega
  stale := h.stale

theorem Inv.make (h : f.Inv) (a : α) : (f.make a).Inv where
  serial := by
    rintro i e he
    have hle := (List.getElem?_eq_some_iff.mp he).1
    simp only [Feed.make, List.length_append, List.length_singleton] at he hle ⊢
    rcases Nat.lt_or_ge i f.produced.length with hlt | hge
    · rw [List.getElem?_append_left hlt] at he
      have hserial := h.serial i e he
      omega
    · obtain rfl : i = f.produced.length := by omega
      rw [List.getElem?_concat_length] at he
      obtain rfl := Option.some.inj he
      simp only
      omega
  old := by
    rintro e he
    exact Nat.lt_succ_of_lt (h.old e he)
  gone_le := by
    simp only [Feed.make, List.length_append, List.length_singleton]
    exact Nat.le_succ_of_le h.gone_le
  dropped := h.dropped
  whole := by
    rintro hdropped hlate hstale
    show f.handed = (f.produced ++ [_]).take f.gone
    rw [List.take_append_of_le_length h.gone_le]
    exact h.whole hdropped hlate hstale
  short := h.short
  stale := by
    intro hstale
    obtain ⟨e, he, hlt⟩ := h.stale hstale
    refine ⟨e, he, ?_⟩
    simp only [Feed.make, List.length_append, List.length_singleton]
    omega

/-- The item at the front, if the queue has one with this value there. -/
theorem front_eq {a : α} {rest : List α} (h : f.queue = a :: rest) :
    f.produced[f.gone]? = some (f.front a) := by
  rcases hfront : f.produced[f.gone]? with _ | e
  · rw [queue, List.drop_eq_nil_of_le (List.getElem?_eq_none_iff.mp hfront)] at h
    cases h
  · have hhead : f.queue.head? = some e.value := by
      rw [queue, List.head?_map, List.head?_drop, hfront]
      rfl
    rw [h] at hhead
    obtain rfl : a = e.value := Option.some.inj hhead
    rw [front, hfront]
    rfl

theorem Inv.hand (h : f.Inv) {a : α} (hfront : f.produced[f.gone]? = some (f.front a)) :
    (f.hand a).Inv where
  serial := h.serial
  old := by
    intro e he
    rcases List.mem_append.mp he with he | he
    · exact h.old e he
    · obtain rfl := List.mem_singleton.mp he
      have hserial := h.serial _ _ hfront
      have hlt := (List.getElem?_eq_some_iff.mp hfront).1
      show (f.front a).serial < f.count
      omega
  gone_le := (List.getElem?_eq_some_iff.mp hfront).1
  dropped := fun _ => Nat.succ_pos _
  whole := by
    rintro hdropped hlate hstale
    show f.handed ++ [f.front a] = f.produced.take (f.gone + 1)
    rw [List.take_add_one, hfront, h.whole hdropped hlate hstale]
    rfl
  short := by
    rintro hstale hmissed
    have hlt := h.short hstale hmissed
    show (f.handed ++ [_]).length < f.gone + 1
    rw [List.length_append, List.length_singleton]
    omega
  stale := by
    intro hstale
    obtain ⟨e, he, hlt⟩ := h.stale hstale
    exact ⟨e, List.mem_append_left _ he, hlt⟩

theorem Inv.reset (h : f.Inv) : f.reset.Inv where
  serial := nofun
  old := h.old
  gone_le := Nat.le_refl _
  dropped := nofun
  whole := by
    rintro - - hstale
    simpa [Feed.reset] using hstale
  short := by
    rintro - hmissed
    simp [Feed.reset] at hmissed
  stale := by
    intro hstale
    obtain ⟨e, he⟩ : ∃ e, e ∈ f.handed := by
      refine List.exists_mem_of_ne_nil _ ?_
      intro hnil
      simp [Feed.reset, hnil] at hstale
    exact ⟨e, he, h.old e he⟩

theorem Inv.switch (h : f.Inv) : f.switch.Inv where
  serial := h.serial
  old := nofun
  gone_le := h.gone_le
  dropped := h.dropped
  whole := by
    rintro - hlate -
    have hgone : f.gone = 0 := by simpa [Feed.switch] using hlate
    simp [Feed.switch, hgone]
  short := by
    rintro - (hdropped | hlate)
    · exact h.dropped hdropped
    · exact Nat.pos_of_ne_zero (by simpa [Feed.switch] using hlate)
  stale := nofun

/-- The receiver's items and the one at the front are the first ones of the
stream only if the receiver was handed all that is gone. -/
theorem Inv.prefix_iff (h : f.Inv) {a : α} (hfront : f.produced[f.gone]? = some (f.front a)) :
    f.handed ++ [f.front a] <+: f.produced ↔ f.handed = f.produced.take f.gone := by
  refine ⟨?_, ?_⟩
  · intro hpre
    have hlast : f.produced[f.handed.length]? = some (f.front a) := by
      obtain ⟨rest, hrest⟩ := hpre
      rw [← hrest, List.append_assoc, List.getElem?_append_right (Nat.le_refl _), Nat.sub_self]
      rfl
    have hserial := h.serial _ _ hlast
    have hserial' := h.serial _ _ hfront
    have hlength : f.handed.length = f.gone := by omega
    rw [← hlength]
    exact List.prefix_iff_eq_take.mp ((List.prefix_append _ _).trans hpre)
  · intro hwhole
    have htake : f.produced.take (f.gone + 1) = f.handed ++ [f.front a] := by
      rw [List.take_add_one, hfront, ← hwhole]
      rfl
    rw [← htake]
    exact List.take_prefix _ _

/-- **The receiver follows the producer** as long as no item was dropped, none had
left before it came, and it had been handed none before the reset. -/
theorem Inv.handed_prefix_iff (h : f.Inv) {a : α} {rest : List α} (hqueue : f.queue = a :: rest) :
    f.handed ++ [f.front a] <+: f.produced ↔
      f.dropped = false ∧ f.late = false ∧ f.stale = false := by
  rw [h.prefix_iff (front_eq hqueue)]
  refine ⟨?_, ?_⟩
  · intro hwhole
    have hstale : f.stale = false := by
      rw [← Bool.not_eq_true]
      intro hstale
      obtain ⟨e, he, hlt⟩ := h.stale hstale
      rw [hwhole] at he
      obtain ⟨i, hi⟩ := List.getElem?_of_mem (List.mem_of_mem_take he)
      have hserial := h.serial i e hi
      omega
    have hmissed : ¬ (f.dropped ∨ f.late) := by
      intro hmissed
      have hlt := h.short hstale hmissed
      rw [hwhole, List.length_take] at hlt
      have hle := h.gone_le
      omega
    rw [not_or, Bool.not_eq_true, Bool.not_eq_true] at hmissed
    exact ⟨hmissed.1, hmissed.2, hstale⟩
  · rintro ⟨hdropped, hlate, hstale⟩
    exact h.whole hdropped hlate hstale

end Feed
