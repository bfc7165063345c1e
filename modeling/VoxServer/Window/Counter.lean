import Mathlib.Algebra.Order.Monoid.Defs
import VoxServer.Interleaving.History

/-! # Counting in fixed windows

A counter admits a limited number of events in a window. The first event after the end of
a window opens the next one, so windows start at events and never overlap. An interval
that is shorter than a window meets at most two of them.
-/

namespace VoxServer.Window

open Interleaving

/-- The start of the current window and the number of events admitted in it. -/
structure Counter (T : Type) where
  start : T
  count : ℕ

variable {T : Type} [AddCommMonoid T] [LinearOrder T]

/-- Whether the event is admitted, and the counter after it. -/
def attempt (limit : ℕ) (width now : T) (c : Counter T) : Bool × Counter T :=
  if c.count = 0 ∨ c.start + width ≤ now then (true, ⟨now, 1⟩)
  else if limit ≤ c.count then (false, c)
  else (true, ⟨c.start, c.count + 1⟩)

/-- The events so far, each with its answer, and the counter, after one more event. -/
def record (limit : ℕ) (width : T) (p : List (T × Bool) × Counter T) (now : T) :
    List (T × Bool) × Counter T :=
  (p.1 ++ [(now, (attempt limit width now p.2).1)], (attempt limit width now p.2).2)

def recordAll (limit : ℕ) (width : T) (c : Counter T) (ts : List T) :
    List (T × Bool) × Counter T := ts.foldl (record limit width) ([], c)

@[simp] theorem recordAll_nil (limit : ℕ) (width : T) (c : Counter T) :
    recordAll limit width c [] = ([], c) := rfl

@[simp] theorem recordAll_snoc (limit : ℕ) (width : T) (c : Counter T) (ts : List T) (t : T) :
    recordAll limit width c (ts ++ [t]) = record limit width (recordAll limit width c ts) t := by
  simp [recordAll]

def admitted (log : List (T × Bool)) : List T := (log.filter Prod.snd).map Prod.fst

omit [AddCommMonoid T] [LinearOrder T] in
theorem mem_admitted {log : List (T × Bool)} {t : T} : t ∈ admitted log ↔ (t, true) ∈ log := by
  simp [admitted]

/-- The counter has counted the admitted events of its window, and the windows before it were
bounded. -/
structure Inv (limit : ℕ) (width : T) (log : List T) (c : Counter T) : Prop where
  unused : c.count = 0 → log = []
  started : c.count ≠ 0 → c.start ∈ log
  count_le : c.count ≤ limit
  current : log.countP (c.start ≤ ·) = c.count
  within : ∀ t ∈ log, t < c.start + width
  /-- What stands before the window but less than a window before its start is of one window. -/
  recent : ∀ a, c.start < a + width → log.countP (fun t => a ≤ t ∧ t < c.start) ≤ limit
  interval : ∀ a b, b < a + width → log.countP (fun t => a ≤ t ∧ t ≤ b) ≤ 2 * limit

section Inv

variable {limit : ℕ} {width now : T} {log : List T} {c : Counter T}

theorem inv_nil {t : T} : Inv limit width [] ⟨t, 0⟩ where
  unused _ := rfl
  started h := absurd rfl h
  count_le := Nat.zero_le _
  current := rfl
  within := by simp
  recent := by simp
  interval := by simp

/-- An interval that began less than a window before the current one has events of this window and
of the one before it. -/
theorem Inv.countP_interval_le (h : Inv limit width log c) {a b : T} (ha : c.start < a + width) :
    log.countP (fun t => a ≤ t ∧ t ≤ b) ≤ limit + c.count := by
  have hrecent := h.recent a ha
  have hsplit := List.countP_eq_countP_filter_add log
    (fun t => decide (a ≤ t ∧ t ≤ b)) (fun t => decide (t < c.start))
  rw [List.countP_filter, List.countP_filter] at hsplit
  have hbefore : log.countP (fun t => decide (a ≤ t ∧ t ≤ b) && decide (t < c.start)) ≤
      log.countP (fun t => a ≤ t ∧ t < c.start) :=
    List.countP_mono_left fun t _ ht => by simp_all
  have hsince : log.countP (fun t => decide (a ≤ t ∧ t ≤ b) && !decide (t < c.start)) ≤
      log.countP (c.start ≤ ·) :=
    List.countP_mono_left fun t _ ht => by simp_all
  have hcurrent := h.current
  omega

theorem Inv.next (h : Inv limit width log c) (hopen : c.count ≠ 0) (hcount : c.count < limit)
    (hstart : c.start ≤ now) (hend : now < c.start + width) :
    Inv limit width (log ++ [now]) ⟨c.start, c.count + 1⟩ := by
  refine ⟨by simp, fun _ => List.mem_append_left _ (h.started hopen), hcount, ?_, ?_, ?_, ?_⟩
  · simp [List.countP_append, h.current, hstart]
  · intro t ht
    rcases List.mem_append.mp ht with ht | ht
    · exact h.within t ht
    · rw [List.mem_singleton.mp ht]
      exact hend
  · intro a ha
    have hnot : ¬ (a ≤ now ∧ now < c.start) := fun hin => absurd hin.2 (not_lt.mpr hstart)
    simpa [List.countP_append, hnot] using h.recent a ha
  · intro a b hab
    rw [List.countP_append, List.countP_singleton]
    split
    · rename_i hin
      simp only [decide_eq_true_eq] at hin
      have hle := h.countP_interval_le (b := b) (hstart.trans_lt (hin.2.trans_lt hab))
      omega
    · exact h.interval a b hab

variable [IsOrderedCancelAddMonoid T]

theorem Inv.countP_since_le (h : Inv limit width log c)
    (hnew : c.count = 0 ∨ c.start + width ≤ now) {a : T} (ha : now < a + width) :
    log.countP (a ≤ ·) ≤ limit := by
  rcases hnew with hzero | hend
  · simp [h.unused hzero]
  · have hstart : c.start < a := lt_of_add_lt_add_right (hend.trans_lt ha)
    calc log.countP (a ≤ ·) ≤ log.countP (c.start ≤ ·) := by
          refine List.countP_mono_left fun t _ ht => ?_
          simp only [decide_eq_true_eq] at ht ⊢
          exact hstart.le.trans ht
      _ = c.count := h.current
      _ ≤ limit := h.count_le

theorem Inv.restart (h : Inv limit width log c) (hlimit : 1 ≤ limit) (hwidth : 0 < width)
    (hnew : c.count = 0 ∨ c.start + width ≤ now) : Inv limit width (log ++ [now]) ⟨now, 1⟩ := by
  have holder : ∀ t ∈ log, t < now := by
    intro t ht
    rcases hnew with hzero | hend
    · simp [h.unused hzero] at ht
    · exact (h.within t ht).trans_le hend
  have hafter : now < now + width := lt_add_of_pos_right now hwidth
  refine ⟨by simp, by simp, hlimit, ?_, ?_, ?_, ?_⟩
  · have hnone : log.countP (now ≤ ·) = 0 := by
      refine List.countP_eq_zero.mpr fun t ht => ?_
      simpa using holder t ht
    simp [List.countP_append, hnone]
  · intro t ht
    rcases List.mem_append.mp ht with ht | ht
    · exact (holder t ht).trans hafter
    · rw [List.mem_singleton.mp ht]
      exact hafter
  · intro a ha
    refine le_trans ?_ (h.countP_since_le hnew ha)
    simp only [List.countP_append, List.countP_singleton, lt_self_iff_false, and_false,
      decide_false, Bool.false_eq_true, if_false, Nat.add_zero]
    exact List.countP_mono_left fun t _ ht => by simp_all
  · intro a b hab
    have hold := h.interval a b hab
    rw [List.countP_append, List.countP_singleton]
    split
    · rename_i hin
      simp only [decide_eq_true_eq] at hin
      have hrecent := h.countP_since_le hnew (hin.2.trans_lt hab)
      have hmono : log.countP (fun t => a ≤ t ∧ t ≤ b) ≤ log.countP (a ≤ ·) :=
        List.countP_mono_left fun t _ ht => by simp_all
      omega
    · exact hold

theorem Inv.full (h : Inv limit width log c) (hcount : limit ≤ c.count)
    (hend : now < c.start + width) (hnow : ∀ t ∈ log, t ≤ now) :
    limit ≤ log.countP fun t => now < t + width ∧ t ≤ now := by
  refine (hcount.trans h.current.ge).trans (List.countP_mono_left fun t ht hs => ?_)
  simp only [decide_eq_true_eq] at hs ⊢
  exact ⟨hend.trans_le (add_le_add_left hs width), hnow t ht⟩

end Inv

section Answers

variable {limit : ℕ} {width : T} {c : Counter T} {ts : List T}

theorem fst_mem_of_mem_recordAll {r : T × Bool} (h : r ∈ (recordAll limit width c ts).1) :
    r.1 ∈ ts := by
  induction ts using List.reverseRecOn with
  | nil => cases h
  | append_singleton ts t ih =>
    rw [recordAll_snoc, record, List.mem_append] at h
    rcases h with h | h
    · exact List.mem_append_left _ (ih h)
    · rw [List.mem_singleton.mp h]
      exact List.mem_append_right _ List.mem_cons_self

theorem inv_recordAll [IsOrderedCancelAddMonoid T] (hlimit : 1 ≤ limit) (hwidth : 0 < width)
    (hc : c.count = 0) (hts : ts.Pairwise (· ≤ ·)) :
    Inv limit width (admitted (recordAll limit width c ts).1) (recordAll limit width c ts).2 ∧
      Always (fun pre r => r.2 = false →
        limit ≤ (admitted pre).countP fun t => r.1 < t + width ∧ t ≤ r.1)
        (recordAll limit width c ts).1 := by
  induction ts using List.reverseRecOn with
  | nil =>
    obtain ⟨start, count⟩ := c
    obtain rfl : count = 0 := hc
    exact ⟨inv_nil, always_nil⟩
  | append_singleton ts now ih =>
    obtain ⟨hsorted, -, hlast⟩ := List.pairwise_append.mp hts
    obtain ⟨hinv, halways⟩ := ih hsorted
    have hnow : ∀ t ∈ admitted (recordAll limit width c ts).1, t ≤ now := by
      intro t ht
      exact hlast t (fst_mem_of_mem_recordAll (mem_admitted.mp ht)) now List.mem_cons_self
    rw [recordAll_snoc, record, always_snoc]
    generalize (recordAll limit width c ts).2 = k at hinv ⊢
    generalize (recordAll limit width c ts).1 = log at hinv halways hnow ⊢
    simp only [attempt]
    split
    · rename_i hnew
      refine ⟨?_, halways, by simp⟩
      simpa [admitted] using hinv.restart hlimit hwidth hnew
    · rename_i hnew
      obtain ⟨hopen, hend⟩ := not_or.mp hnew
      split
      · rename_i hfull
        refine ⟨by simpa [admitted] using hinv, halways, fun _ => ?_⟩
        exact hinv.full hfull (not_le.mp hend) hnow
      · rename_i hroom
        refine ⟨?_, halways, by simp⟩
        simpa [admitted] using
          hinv.next hopen (not_le.mp hroom) (hnow _ (hinv.started hopen)) (not_le.mp hend)

end Answers

end VoxServer.Window
