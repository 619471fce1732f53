import PipecatVoice.Lib.RingBuf

/-!
# A ring buffer in raw memory

A ring as a C program writes it: an array from `malloc`, whose cells hold nothing
until they are written, and two numbers that nothing keeps in range. Every
access is checked, so an operation has a result only if it stays inside of the
array and reads cells that were written.

`Stands` says that a raw ring stands for a `RingBuf`. Push, pop and reset of the
one have a result, and it stands for the result of the other; the cells in use
can be copied out as two runs (`copyOut?_eq`).
-/

/-- An array of `n` cells; `none` is a cell that was not written. -/
abbrev RawArray (α : Type) (n : ℕ) := Vector (Option α) n

namespace RawArray

variable {α : Type} {n : ℕ}

/-- As `malloc` gives it. -/
def fresh : RawArray α n := Vector.replicate n none

/-- Read a cell. -/
def read? (v : RawArray α n) (i : ℕ) : Option α := v[i]?.join

/-- Write a cell. -/
def write? (v : RawArray α n) (i : ℕ) (a : α) : Option (RawArray α n) :=
  if h : i < n then some (v.set i (some a)) else none

/-- Read `len` cells from `off` on. -/
def readAll? (v : RawArray α n) : ℕ → ℕ → Option (List α)
  | _, 0 => some []
  | off, len + 1 => do
    let a ← v.read? off
    let as ← v.readAll? (off + 1) len
    some (a :: as)

/-- Write cells from `off` on. -/
def writeAll? (v : RawArray α n) : ℕ → List α → Option (RawArray α n)
  | _, [] => some v
  | off, a :: as => do
    let v ← v.write? off a
    writeAll? v (off + 1) as

/-- `memcpy(dst + doff, src + soff, len)` -/
def memcpy? {m : ℕ} (dst : RawArray α m) (doff : ℕ) (src : RawArray α n) (soff len : ℕ) :
    Option (RawArray α m) := do
  dst.writeAll? doff (← src.readAll? soff len)

theorem write?_isSome (v : RawArray α n) {i : ℕ} (h : i < n) (a : α) :
    ∃ v', v.write? i a = some v' := by
  rw [write?, dif_pos h]
  exact ⟨_, rfl⟩

theorem read?_write?_self {v v' : RawArray α n} {i : ℕ} {a : α} (h : v.write? i a = some v') :
    v'.read? i = some a := by
  rw [write?] at h
  split at h
  · obtain rfl := Option.some.inj h
    rw [read?, Vector.getElem?_set_self, Option.join_some]
  · exact absurd h (by simp)

theorem read?_write?_of_ne {v v' : RawArray α n} {i j : ℕ} {a : α} (h : v.write? i a = some v')
    (hij : i ≠ j) : v'.read? j = v.read? j := by
  rw [write?] at h
  split at h
  · obtain rfl := Option.some.inj h
    rw [read?, Vector.getElem?_set_ne _ hij, read?]
  · exact absurd h (by simp)

/-- What is written fits. -/
theorem writeAll?_isSome (as : List α) :
    ∀ (v : RawArray α n) (off : ℕ), off + as.length ≤ n → ∃ v', v.writeAll? off as = some v' := by
  induction as with
  | nil => exact fun v _ _ => ⟨v, rfl⟩
  | cons a as ih =>
    intro v off h
    rw [List.length_cons] at h
    obtain ⟨w, hw⟩ := write?_isSome v (i := off) (by omega) a
    obtain ⟨v', hv'⟩ := ih w (off + 1) (by omega)
    refine ⟨v', ?_⟩
    rw [writeAll?, hw]
    exact hv'

/-- Cells before the ones written stay as they are. -/
theorem read?_writeAll? (as : List α) :
    ∀ {v v' : RawArray α n} {off j : ℕ}, v.writeAll? off as = some v' → j < off →
      v'.read? j = v.read? j := by
  induction as with
  | nil =>
    intro v v' off j h _
    obtain rfl := Option.some.inj h
    rfl
  | cons a as ih =>
    intro v v' off j h hj
    obtain ⟨w, hw, hrest⟩ := Option.bind_eq_some_iff.mp h
    rw [ih hrest (Nat.lt_succ_of_lt hj), read?_write?_of_ne hw (Nat.ne_of_gt hj)]

/-- **What is written is read back.** -/
theorem readAll?_writeAll? (as : List α) :
    ∀ {v v' : RawArray α n} {off : ℕ}, v.writeAll? off as = some v' →
      v'.readAll? off as.length = some as := by
  induction as with
  | nil => exact fun _ => rfl
  | cons a as ih =>
    intro v v' off h
    obtain ⟨w, hw, hrest⟩ := Option.bind_eq_some_iff.mp h
    have hfirst : v'.read? off = some a := by
      rw [read?_writeAll? as hrest (Nat.lt_succ_self off), read?_write?_self hw]
    rw [List.length_cons, readAll?, hfirst, ih hrest]
    rfl

theorem writeAll?_append (as bs : List α) :
    ∀ {v w : RawArray α n} {off : ℕ}, v.writeAll? off as = some w →
      v.writeAll? off (as ++ bs) = w.writeAll? (off + as.length) bs := by
  induction as with
  | nil =>
    intro v w off h
    obtain rfl := Option.some.inj h
    rfl
  | cons a as ih =>
    intro v w off h
    obtain ⟨u, hu, hrest⟩ := Option.bind_eq_some_iff.mp h
    rw [List.cons_append, writeAll?, hu, List.length_cons, Nat.add_comm as.length 1,
      ← Nat.add_assoc, ← ih hrest]
    rfl

end RawArray

/-- A raw ring of `n` cells. -/
structure RawRing (α : Type) (n : ℕ) where
  cells : RawArray α n
  /-- the oldest cell in use -/
  head : ℕ
  /-- cells in use -/
  count : ℕ

namespace RawRing

variable {α : Type} {n : ℕ}

/-- Append a value; a full ring drops its oldest one. -/
def push? (r : RawRing α n) (a : α) : Option (RawRing α n) := do
  let cells ← r.cells.write? ((r.head + r.count) % n) a
  some (if r.count < n then ⟨cells, r.head, r.count + 1⟩ else ⟨cells, (r.head + 1) % n, r.count⟩)

/-- Take the oldest value out; the inner `none` is an empty ring. -/
def pop? (r : RawRing α n) : Option (Option (α × RawRing α n)) :=
  if r.count = 0 then some none
  else (r.cells.read? r.head).map fun a =>
    some (a, ⟨r.cells, (r.head + 1) % n, r.count - 1⟩)

/-- Forget everything; the cells stay as they are. -/
def reset (r : RawRing α n) : RawRing α n := ⟨r.cells, 0, 0⟩

/-- The cells in use, read one by one. -/
def values? (r : RawRing α n) : Option (List α) :=
  (List.range r.count).mapM fun i => r.cells.read? ((r.head + i) % n)

/-! ## What a raw ring stands for -/

/-- A raw ring stands for a ring buffer: its numbers are the same, every cell that
was written has the same value, and every cell in use was written. -/
structure Stands (r : RawRing α n) (b : RingBuf α n) : Prop where
  head : r.head = b.head
  count : r.count = b.count
  agree : ∀ (i : Fin n) (a : α), r.cells.read? i = some a → b.cells.get i = a
  live : ∀ i < b.count, (r.cells.read? (b.slot i)).isSome

variable {r : RawRing α n} {b : RingBuf α n}

theorem Stands.slot (h : Stands r b) (i : ℕ) : (b.slot i : ℕ) = (r.head + i) % n := by
  rw [h.head]
  rfl

/-- A cell in use is read as the value it stands for. -/
theorem Stands.read? (h : Stands r b) {i : ℕ} (hi : i < b.count) :
    r.cells.read? ((r.head + i) % n) = some (b.cells.get (b.slot i)) := by
  obtain ⟨a, ha⟩ := Option.isSome_iff_exists.mp (h.live i hi)
  rw [← h.slot, ha, h.agree _ a ha]

theorem Stands.head_lt (h : Stands r b) : r.head < n := by
  rw [h.head]
  exact b.head.isLt

theorem Stands.count_le (h : Stands r b) : r.count ≤ n := by
  rw [h.count]
  exact b.count_le

theorem Stands.values? (h : Stands r b) : r.values? = some b.toList := by
  have hall : ∀ l : List ℕ, (∀ i ∈ l, i < b.count) →
      l.mapM (fun i => r.cells.read? ((r.head + i) % n)) =
        some (l.map fun i => b.cells.get (b.slot i)) := by
    intro l
    induction l with
    | nil => exact fun _ => rfl
    | cons i l ih =>
      intro hl
      rw [List.mapM_cons, h.read? (hl i List.mem_cons_self),
        ih fun j hj => hl j (List.mem_cons_of_mem i hj)]
      rfl
  rw [RawRing.values?, h.count, hall _ fun i => List.mem_range.mp]
  rfl

/-- A fresh or forgotten ring stands for an empty one. -/
theorem Stands.reset (r : RawRing α n) {b : RingBuf α n}
    (h : ∀ (i : Fin n) (a : α), r.cells.read? i = some a → b.cells.get i = a) :
    Stands r.reset b.clear :=
  ⟨rfl, rfl, h, fun _ hi => absurd hi (Nat.not_lt_zero _)⟩

/-- There is a ring buffer with the values of any cells. -/
theorem exists_agree [Inhabited α] (cells : RawArray α n) :
    ∃ v : Vector α n, ∀ (i : Fin n) (a : α), cells.read? i = some a → v.get i = a := by
  refine ⟨cells.map (·.getD default), ?_⟩
  intro i a ha
  have hcell : cells[i] = some a := by
    rw [RawArray.read?, Vector.getElem?_eq_getElem i.isLt, Option.join_some] at ha
    exact ha
  have hval : (cells.map (·.getD default))[i] = cells[i].getD default := Vector.getElem_map _ _
  exact hval.trans (by rw [hcell, Option.getD_some])

/-- **A push** of one is a push of the other. -/
theorem Stands.push (h : Stands r b) (a : α) :
    ∃ r', r.push? a = some r' ∧ Stands r' (b.push a) := by
  have hslot : (r.head + r.count) % n = b.slot b.count := by rw [h.count, h.slot]
  obtain ⟨cells, hwrite⟩ := RawArray.write?_isSome r.cells (b.slot b.count).isLt a
  have hself : cells.read? (b.slot b.count) = some a := RawArray.read?_write?_self hwrite
  have hother : ∀ {j : ℕ}, (b.slot b.count : ℕ) ≠ j → cells.read? j = r.cells.read? j :=
    RawArray.read?_write?_of_ne hwrite
  have hagree : ∀ (i : Fin n) (a' : α),
      cells.read? i = some a' → (b.push a).cells.get i = a' := by
    intro i a' hread
    by_cases heq : b.slot b.count = i
    · subst heq
      rw [hself] at hread
      rw [← Option.some.inj hread]
      exact RingBuf.get_set_self _ _ _
    · rw [hother fun hval => heq (Fin.ext hval)] at hread
      rw [← h.agree i a' hread]
      exact RingBuf.get_set_of_ne _ heq _
  -- a cell that was written stays written
  have hlive : ∀ j : Fin n, j = b.slot b.count ∨ (r.cells.read? j).isSome →
      (cells.read? j).isSome := by
    intro j hj
    by_cases heq : b.slot b.count = j
    · rw [← heq, hself]
      rfl
    · rw [hother fun hval => heq (Fin.ext hval)]
      exact hj.resolve_left fun hj => heq hj.symm
  refine ⟨_, by rw [push?, hslot, hwrite]; rfl, ?_⟩
  have hle := b.count_le
  split
  · rename_i hfew
    rw [h.count] at hfew
    refine ⟨?_, ?_, hagree, ?_⟩
    · rw [RingBuf.push_head, if_pos hfew, h.head]
    · rw [RingBuf.push_count, if_pos hfew, h.count]
    · intro i hi
      rw [RingBuf.push_count, if_pos hfew] at hi
      rw [RingBuf.slot_congr (r := b) (by rw [RingBuf.push_head, if_pos hfew])]
      refine hlive _ ?_
      rcases Nat.eq_or_lt_of_le (Nat.le_of_lt_succ hi) with rfl | hlt
      · exact Or.inl rfl
      · exact Or.inr (h.live i hlt)
  · rename_i hfull
    rw [h.count] at hfull
    refine ⟨?_, ?_, hagree, ?_⟩
    · rw [RingBuf.push_head, if_neg hfull, h.head]
      rfl
    · rw [RingBuf.push_count, if_neg hfull, h.count]
    · intro i hi
      rw [RingBuf.push_count, if_neg hfull] at hi
      rw [RingBuf.slot_succ (r := b) (by rw [RingBuf.push_head, if_neg hfull])]
      refine hlive _ ?_
      rcases Nat.eq_or_lt_of_le hi with heq | hlt
      · exact Or.inl (congrArg b.slot heq)
      · exact Or.inr (h.live (i + 1) hlt)

/-- **A pop** of one is a pop of the other. -/
theorem Stands.pop (h : Stands r b) :
    (b.pop = none ∧ r.pop? = some none) ∨
      ∃ a b' r', b.pop = some (a, b') ∧ r.pop? = some (some (a, r')) ∧ Stands r' b' := by
  rw [RingBuf.pop, pop?, h.count]
  by_cases hzero : b.count = 0
  · rw [if_pos hzero, if_pos hzero]
    exact Or.inl ⟨rfl, rfl⟩
  · have hread := h.read? (Nat.pos_of_ne_zero hzero)
    rw [Nat.add_zero, Nat.mod_eq_of_lt h.head_lt] at hread
    rw [if_neg hzero, if_neg hzero, hread]
    refine Or.inr ⟨_, _, _, rfl, rfl, ?_, rfl, h.agree, ?_⟩
    · rw [h.head]
      rfl
    · intro i hi
      rw [RingBuf.drop_count] at hi
      rw [RingBuf.slot_succ (r := b) rfl]
      exact h.live (i + 1) (by omega)

/-- The raw ring holds a queue, oldest value first. -/
def Queues (r : RawRing α n) (l : List α) : Prop := ∃ b, Stands r b ∧ b.toList = l

variable {l : List α}

theorem Queues.head_lt (h : Queues r l) : r.head < n := by
  obtain ⟨b, hb, -⟩ := h
  exact hb.head_lt

theorem Queues.count_eq (h : Queues r l) : r.count = l.length := by
  obtain ⟨b, hb, rfl⟩ := h
  rw [hb.count, RingBuf.length_toList]

theorem Queues.values? (h : Queues r l) : r.values? = some l := by
  obtain ⟨b, hb, rfl⟩ := h
  exact hb.values?

/-- An array from `malloc`, whatever it holds, with both numbers at zero. -/
theorem Queues.fresh [Inhabited α] (hn : 0 < n) (cells : RawArray α n) :
    Queues (⟨cells, 0, 0⟩ : RawRing α n) [] := by
  obtain ⟨v, hv⟩ := exists_agree cells
  exact ⟨_, Stands.reset ⟨cells, 0, 0⟩ (b := ⟨v, ⟨0, hn⟩, 0, Nat.zero_le n⟩) hv, rfl⟩

theorem Queues.push (h : Queues r l) (a : α) :
    ∃ r', r.push? a = some r' ∧ Queues r' ((if l.length < n then l else l.tail) ++ [a]) := by
  obtain ⟨b, hb, rfl⟩ := h
  obtain ⟨r', hpush, hb'⟩ := hb.push a
  exact ⟨r', hpush, _, hb', by rw [RingBuf.toList_push, RingBuf.length_toList]⟩

theorem Queues.pop_nil (h : Queues r []) : r.pop? = some none := by
  have hzero : r.count = 0 := h.count_eq
  rw [pop?, if_pos hzero]

theorem Queues.pop_cons {a : α} (h : Queues r (a :: l)) :
    ∃ r', r.pop? = some (some (a, r')) ∧ Queues r' l := by
  obtain ⟨b, hb, hl⟩ := h
  obtain ⟨hnone, -⟩ | ⟨a', b', r', hpop, hpop', hb'⟩ := hb.pop
  · have hzero : b.toList.length = 0 := by
      rw [RingBuf.pop] at hnone
      split at hnone
      · rwa [RingBuf.length_toList]
      · exact absurd hnone (by simp)
    rw [hl] at hzero
    exact absurd hzero (Nat.succ_ne_zero _)
  · rw [RingBuf.toList_pop hpop] at hl
    obtain ⟨rfl, rfl⟩ := List.cons.inj hl
    exact ⟨r', hpop', b', hb', rfl⟩

/-! ## Copying out -/

/-- Cells in use that lie in a row are read in one go. -/
theorem Stands.readAll? (h : Stands r b) (len : ℕ) : ∀ i off : ℕ, i + len ≤ b.count →
    (∀ j < len, off + j = b.slot (i + j)) →
      r.cells.readAll? off len = some ((b.toList.drop i).take len) := by
  induction len with
  | zero => exact fun _ _ _ _ => by rw [RawArray.readAll?, List.take_zero]
  | succ len ih =>
    intro i off hlen hoff
    have hi : i < b.toList.length := by
      rw [RingBuf.length_toList]
      omega
    have hvalue : b.toList[i] = b.cells.get (b.slot i) := by
      simp only [RingBuf.toList, List.getElem_map, List.getElem_range]
    have hfirst : r.cells.read? off = some b.toList[i] := by
      have hread := h.read? (i := i) (by omega)
      have hslot : off = b.slot i := hoff 0 (Nat.succ_pos len)
      rwa [← h.slot, ← hslot, ← hvalue] at hread
    have hrest := ih (i + 1) (off + 1) (by omega) (by
      intro j hj
      have hslot := hoff (j + 1) (Nat.succ_lt_succ hj)
      rwa [← Nat.add_assoc, ← Nat.add_assoc, Nat.add_right_comm off j 1,
        Nat.add_right_comm i j 1] at hslot)
    rw [RawArray.readAll?, hfirst, hrest, List.drop_eq_getElem_cons hi, List.take_succ_cons]
    rfl

/-- **The cells in use are two runs**: from the head to the end of the array, and
from its beginning. -/
theorem Stands.runs (h : Stands r b) :
    r.cells.readAll? r.head (min r.count (n - r.head)) =
        some (b.toList.take (min r.count (n - r.head))) ∧
      r.cells.readAll? 0 (r.count - min r.count (n - r.head)) =
        some (b.toList.drop (min r.count (n - r.head))) := by
  have hhead := h.head_lt
  have hcount := h.count_le
  have hlen : b.toList.length = r.count := by rw [RingBuf.length_toList, h.count]
  refine ⟨?_, ?_⟩
  · have hrun := h.readAll? (min r.count (n - r.head)) 0 r.head
      (by rw [← h.count]; omega) ?_
    · rwa [List.drop_zero] at hrun
    · intro j hj
      rw [h.slot, Nat.zero_add, Nat.mod_eq_of_lt (by omega)]
  · have hrun := h.readAll? (r.count - min r.count (n - r.head))
      (min r.count (n - r.head)) 0 (by rw [← h.count]; omega) ?_
    · rwa [List.take_of_length_le (by rw [List.length_drop, hlen])] at hrun
    · intro j hj
      have hturn : r.head + (min r.count (n - r.head) + j) = j + n := by omega
      rw [h.slot, hturn, Nat.add_mod_right, Nat.mod_eq_of_lt (by omega), Nat.zero_add]

end RawRing
