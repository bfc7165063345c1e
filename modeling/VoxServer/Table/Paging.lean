import Mathlib.Algebra.Ring.Nat
import Mathlib.Algebra.Ring.Int.Defs
import Mathlib.Data.List.Sort
import VoxServer.Table.Basic

/-! # Paging by key

A listing in key order is read page by page. Each page fetches one row more
than its limit, and the extra row only tells that there is more. The next page
starts after the key of the last row. A reader that has come to a position has
read every row up to it, as long as no row appears or changes behind it. If nothing
changes at all, passing on the cursors enumerates the rows.
-/

namespace VoxServer.Table

variable {ρ κ : Type*}

/-- `LIMIT n`, where a negative number stands for no limit. -/
def applyLimit (n : ℤ) (rows : List ρ) : List ρ :=
  if n < 0 then rows else rows.take n.toNat

/-- The page of at most `limit` rows, and whether there are more. The limit is a
64-bit unsigned number; one more than it is passed on as a signed one. -/
def lookAhead (limit : UInt64) (rows : List ρ) : List ρ × Bool :=
  let fetched := applyLimit (limit + 1).toInt64.toInt rows
  if limit.toNat < fetched.length then (fetched.dropLast, true) else (fetched, false)

theorem applyLimit_isPrefix (n : ℤ) (rows : List ρ) : applyLimit n rows <+: rows := by
  unfold applyLimit
  split
  · exact List.prefix_rfl
  · exact List.take_prefix _ _

theorem lookAhead_isPrefix (limit : UInt64) (rows : List ρ) :
    (lookAhead limit rows).1 <+: rows := by
  unfold lookAhead
  dsimp only
  split
  · exact (List.dropLast_prefix _).trans (applyLimit_isPrefix _ rows)
  · exact applyLimit_isPrefix _ rows

theorem applyLimit_toInt64 {limit : UInt64} {rows : List ρ} (h : rows.length < 2 ^ 63) :
    applyLimit limit.toInt64.toInt rows = rows.take limit.toNat := by
  have hlt := limit.toNat_lt
  unfold applyLimit
  rw [← Int64.toInt_toBitVec, UInt64.toBitVec_toInt64, BitVec.toInt_eq_toNat_cond,
    UInt64.toNat_toBitVec]
  by_cases hsmall : 2 * limit.toNat < 2 ^ 64
  · rw [if_pos hsmall, if_neg (by omega), Int.toNat_natCast]
  · rw [if_neg hsmall, if_pos (by omega), List.take_of_length_le (by omega)]

theorem toInt_limit {limit : UInt64} (h : limit ≠ UInt64.ofNat (2 ^ 64 - 1)) :
    (limit + 1).toInt64.toInt = limit.toNat + 1 ∨
      (limit + 1).toInt64.toInt < 0 ∧ 2 ^ 63 ≤ limit.toNat + 1 := by
  have hlt := limit.toNat_lt
  have hne : limit.toNat ≠ 2 ^ 64 - 1 := by
    intro he
    exact h (by rw [← he]; simp)
  have hn : (limit + 1).toNat = limit.toNat + 1 := by
    rw [UInt64.toNat_add]
    simp only [UInt64.reduceToNat]
    omega
  rw [← Int64.toInt_toBitVec, UInt64.toBitVec_toInt64, BitVec.toInt_eq_toNat_cond,
    UInt64.toNat_toBitVec, hn]
  split <;> omega

/-- A page that is the last one holds all rows, unless `limit + 1` wrapped around to zero. -/
theorem lookAhead_complete {limit : UInt64} {rows : List ρ}
    (h : limit ≠ UInt64.ofNat (2 ^ 64 - 1)) (hm : (lookAhead limit rows).2 = false) :
    (lookAhead limit rows).1 = rows := by
  unfold lookAhead at hm ⊢
  dsimp only at hm ⊢
  split at hm
  · cases hm
  · rename_i hle
    rw [if_neg hle]
    unfold applyLimit at hle ⊢
    rcases toInt_limit h with he | ⟨he, -⟩
    · rw [he] at hle ⊢
      rw [if_neg (by omega)] at hle ⊢
      rw [List.length_take] at hle
      exact List.take_of_length_le (by omega)
    · rw [if_pos he]

theorem lookAhead_map {ρ' : Type*} (f : ρ → ρ') (limit : UInt64) (rows : List ρ) :
    lookAhead limit (rows.map f) =
      ((lookAhead limit rows).1.map f, (lookAhead limit rows).2) := by
  have hfetch : ∀ n, applyLimit n (rows.map f) = (applyLimit n rows).map f := by
    intro n
    unfold applyLimit
    split
    · rfl
    · rw [List.map_take]
  unfold lookAhead
  dsimp only
  rw [hfetch, List.length_map]
  split
  · rw [List.map_dropLast]
  · rfl

theorem lookAhead_ne_nil {limit : UInt64} {rows : List ρ} (h : 1 ≤ limit.toNat)
    (hm : (lookAhead limit rows).2 = true) : (lookAhead limit rows).1 ≠ [] := by
  unfold lookAhead at hm ⊢
  dsimp only at hm ⊢
  split at hm
  · rename_i hlt
    rw [if_pos hlt]
    intro hnil
    have hlen := congrArg List.length hnil
    rw [List.length_dropLast, List.length_nil] at hlen
    omega
  · cases hm

theorem length_lookAhead_le {limit : UInt64} {rows : List ρ}
    (h : limit ≠ UInt64.ofNat (2 ^ 64 - 1)) (hrows : rows.length < 2 ^ 63) :
    (lookAhead limit rows).1.length ≤ limit.toNat := by
  unfold lookAhead
  dsimp only
  split
  · rename_i hlt
    rw [List.length_dropLast]
    unfold applyLimit at hlt ⊢
    rcases toInt_limit h with he | ⟨he, hlarge⟩
    · rw [he, if_neg (by omega), List.length_take]
      omega
    · -- without a limit there are too few rows for one to be left over
      rw [if_pos he] at hlt
      omega
  · rename_i hle
    exact Nat.le_of_not_lt hle

@[simp] theorem lookAhead_nil (limit : UInt64) : lookAhead limit ([] : List ρ) = ([], false) := by
  simp [lookAhead, applyLimit]

theorem one_le_toNat {limit : UInt64} (h : limit ≠ 0) : 1 ≤ limit.toNat := by
  have hne : limit.toNat ≠ 0 := fun h0 => h (UInt64.toNat_inj.mp h0)
  omega

theorem lookAhead_eq_nil {limit : UInt64} {rows : List ρ} : (lookAhead limit rows).1 = [] ↔
    rows = [] ∨ limit = 0 ∨ limit = UInt64.ofNat (2 ^ 64 - 1) := by
  constructor
  · intro hnil
    by_contra hne
    obtain ⟨hrows, hzero, hmax⟩ : rows ≠ [] ∧ limit ≠ 0 ∧ limit ≠ UInt64.ofNat (2 ^ 64 - 1) := by
      tauto
    cases hm : (lookAhead limit rows).2 with
    | false => exact hrows (lookAhead_complete hmax hm ▸ hnil)
    | true => exact lookAhead_ne_nil (one_le_toNat hzero) hm hnil
  · rintro (rfl | rfl | rfl)
    · rw [lookAhead_nil]
    · cases rows with
      | nil => rw [lookAhead_nil]
      | cons r rows => simp [lookAhead, applyLimit]
    · simp [lookAhead, applyLimit]

section Keyset

variable [LinearOrder κ] (key : ρ → κ)

/-- The rows after a position, in key order; without a position, all of them. -/
def remaining (pos : Option κ) (rows : List ρ) : List ρ :=
  (rows.filter fun r => pos.all (· < key r)).insertionSort fun a b => key a ≤ key b

variable {key} {pos : Option κ} {rows page : List ρ} {r l : ρ}

theorem mem_remaining : r ∈ remaining key pos rows ↔ r ∈ rows ∧ pos.all (· < key r) := by
  simp [remaining]

variable (key rows) in
theorem pairwise_insertionSort_key :
    (rows.insertionSort fun a b => key a ≤ key b).Pairwise fun a b => key a ≤ key b := by
  have : Std.Total fun a b : ρ => key a ≤ key b := ⟨fun a b => le_total (key a) (key b)⟩
  have : IsTrans ρ fun a b => key a ≤ key b := ⟨fun _ _ _ => le_trans⟩
  exact List.pairwise_insertionSort _ _

variable (key pos rows) in
theorem remaining_sorted : (remaining key pos rows).Pairwise fun a b => key a ≤ key b :=
  pairwise_insertionSort_key key _

theorem nodup_remaining (hu : UniqueOn key rows) : (remaining key pos rows).Nodup :=
  (List.perm_insertionSort _ _).nodup_iff.mpr ((hu.of_map key).filter _)

/-- A non-empty page is exactly the rows between the old and the new position. -/
theorem mem_page_iff (hu : UniqueOn key rows) (hp : page <+: remaining key pos rows)
    (hl : page.getLast? = some l) (hr : r ∈ rows) :
    r ∈ page ↔ pos.all (· < key r) ∧ key r ≤ key l := by
  obtain ⟨rest, hrest⟩ := hp
  have hsorted := remaining_sorted key pos rows
  rw [← hrest, List.pairwise_append] at hsorted
  obtain ⟨hpage, -, hcross⟩ := hsorted
  have hlm := List.mem_of_getLast? hl
  constructor
  · intro hm
    refine ⟨(mem_remaining.mp (hrest ▸ List.mem_append_left rest hm)).2, ?_⟩
    obtain ⟨init, rfl⟩ := List.getLast?_eq_some_iff.mp hl
    rcases List.mem_append.mp hm with hm | hm
    · exact (List.pairwise_append.mp hpage).2.2 r hm l (List.mem_singleton_self l)
    · rw [List.mem_singleton.mp hm]
  · rintro ⟨hb, hle⟩
    have hm : r ∈ page ++ rest := hrest ▸ mem_remaining.mpr ⟨hr, hb⟩
    rcases List.mem_append.mp hm with hm | hm
    · exact hm
    · have hlr : l ∈ rows := (mem_remaining.mp (hrest ▸ List.mem_append_left rest hlm)).1
      have he := hu.eq_of_mem hr hlr (le_antisymm hle (hcross l hlm r hm))
      exact he ▸ hlm

theorem remaining_perm : (remaining key pos rows).Perm (rows.filter fun r => pos.all (· < key r)) :=
  List.perm_insertionSort _ _

theorem remaining_eq_append (hu : UniqueOn key rows) (hp : page <+: remaining key pos rows)
    (hl : page.getLast? = some l) :
    remaining key pos rows = page ++ remaining key (some (key l)) rows := by
  have hnodup : (remaining key pos rows).Nodup := nodup_remaining hu
  have hmem : ∀ r ∈ rows, r ∈ page ↔ pos.all (· < key r) ∧ key r ≤ key l :=
    fun r hr => mem_page_iff hu hp hl hr
  obtain ⟨rest, hrest⟩ := hp
  rw [← hrest, List.nodup_append] at hnodup
  obtain ⟨hpage, hnrest, hdisj⟩ := hnodup
  have hsorted := remaining_sorted key pos rows
  rw [← hrest, List.pairwise_append] at hsorted
  -- what is left and the rows after the new position are sorted lists of the same rows
  have hsame : rest.Perm (remaining key (some (key l)) rows) := by
    rw [List.perm_ext_iff_of_nodup hnrest (nodup_remaining hu)]
    intro r
    rw [mem_remaining]
    constructor
    · intro hr
      have hrow := mem_remaining.mp (hrest ▸ List.mem_append_right page hr)
      have hnot : r ∉ page := fun hm => hdisj r hm r hr rfl
      rw [hmem r hrow.1, not_and] at hnot
      exact ⟨hrow.1, by simpa using hnot hrow.2⟩
    · rintro ⟨hr, hlt⟩
      have hlt : key l < key r := by simpa using hlt
      have hlast : l ∈ rows ∧ pos.all (· < key l) :=
        mem_remaining.mp (hrest ▸ List.mem_append_left rest (List.mem_of_getLast? hl))
      have hpos : pos.all (· < key r) := by
        cases pos with
        | none => rfl
        | some p => exact decide_eq_true ((of_decide_eq_true hlast.2).trans hlt)
      have hm : r ∈ page ++ rest := hrest ▸ mem_remaining.mpr ⟨hr, hpos⟩
      rcases List.mem_append.mp hm with hm | hm
      · exact absurd ((hmem r hr).mp hm).2 (not_le.mpr hlt)
      · exact hm
  rw [← hrest, List.append_cancel_left_eq]
  refine List.Perm.eq_of_pairwise ?_ hsorted.2.1 (remaining_sorted key _ rows) hsame
  intro a b ha hb hab hba
  have hrow : ∀ r ∈ rest, r ∈ rows := fun r hr =>
    (mem_remaining.mp (hrest ▸ List.mem_append_right page hr)).1
  exact hu.eq_of_mem (hrow a ha) (mem_remaining.mp hb).1 (le_antisymm hab hba)

theorem remaining_map {ρ' : Type*} {key' : ρ' → κ} {f : ρ → ρ'} (hf : ∀ r, key' (f r) = key r) :
    remaining key' pos (rows.map f) = (remaining key pos rows).map f := by
  unfold remaining
  rw [List.map_insertionSort _ (fun a b => key' a ≤ key' b) f]
  · simp only [List.filter_map, Function.comp_def, hf]
  · intro a _ b _
    rw [hf, hf]

end Keyset

section Reader

/-- What one call of a listing returns. -/
structure Page (ρ π : Type*) where
  rows : List ρ
  next : π
  more : Bool

variable {π : Type*} (listing : π → UInt64 → Page ρ π) (start : π) (limits : ℕ → UInt64)

/-- The cursor of the `n`-th call of a reader that passes on the cursors it gets. -/
def cursorAt : ℕ → π
  | 0 => start
  | n + 1 => (listing (cursorAt n) (limits n)).next

def pageAt (n : ℕ) : Page ρ π := listing (cursorAt listing start limits n) (limits n)

/-- The rows of the first `n` pages. -/
def rowsUpTo (n : ℕ) : List ρ :=
  (List.range n).flatMap fun i => (pageAt listing start limits i).rows

/-- The reader stops after page `n` and has got the rows, each one once and in key order, in pages
within their limits. -/
structure Enumerates [LinearOrder κ] (key : ρ → κ) (rows : List ρ) (n : ℕ) : Prop where
  more : ∀ i < n, (pageAt listing start limits i).more = true
  last : (pageAt listing start limits n).more = false
  bounded : ∀ i ≤ n, (pageAt listing start limits i).rows.length ≤ (limits i).toNat
  perm : (rowsUpTo listing start limits (n + 1)).Perm rows
  sorted : (rowsUpTo listing start limits (n + 1)).Pairwise fun a b => key a < key b

/-- From a cursor that stands at a position, the listing returns a page of the rows after it and the
cursor that stands at the last one. -/
def Lists [LinearOrder κ] (key : ρ → κ) (rows : List ρ) (At : π → Option κ → Prop) : Prop :=
  ∀ cursor pos limit, At cursor pos →
    (listing cursor limit).rows = (lookAhead limit (remaining key pos rows)).1 ∧
    (listing cursor limit).more = (lookAhead limit (remaining key pos rows)).2 ∧
    ∀ l, (listing cursor limit).rows.getLast? = some l →
      At (listing cursor limit).next (some (key l))

variable {listing start limits} [LinearOrder κ] {key : ρ → κ} {rows : List ρ}
  {At : π → Option κ → Prop} {pos₀ : Option κ}

theorem rowsUpTo_succ (n : ℕ) : rowsUpTo listing start limits (n + 1) =
    rowsUpTo listing start limits n ++ (pageAt listing start limits n).rows := by
  simp [rowsUpTo, List.range_succ]

theorem Lists.upTo (h : Lists listing key rows At) (hu : UniqueOn key rows)
    (h₀ : At start pos₀) (hlim : ∀ i, 1 ≤ (limits i).toNat) (n : ℕ)
    (hmore : ∀ i < n, (pageAt listing start limits i).more = true) :
    n ≤ (rowsUpTo listing start limits n).length ∧
      ∃ pos, At (cursorAt listing start limits n) pos ∧
        remaining key pos₀ rows = rowsUpTo listing start limits n ++ remaining key pos rows := by
  induction n with
  | zero => exact ⟨Nat.le_refl _, pos₀, h₀, rfl⟩
  | succ n ih =>
    obtain ⟨hlen, pos, hat, hrem⟩ := ih fun i hi => hmore i (Nat.lt_succ_of_lt hi)
    obtain ⟨hrows, hm, hnext⟩ := h _ _ (limits n) hat
    have hne : (pageAt listing start limits n).rows ≠ [] := by
      rw [pageAt, hrows]
      exact lookAhead_ne_nil (hlim n) (hm ▸ hmore n (Nat.lt_succ_self n))
    obtain ⟨l, hl⟩ := Option.ne_none_iff_exists'.mp (mt List.getLast?_eq_none_iff.mp hne)
    have hpre : (pageAt listing start limits n).rows <+: remaining key pos rows := by
      rw [pageAt, hrows]
      exact lookAhead_isPrefix _ _
    refine ⟨?_, some (key l), hnext l hl, ?_⟩
    · rw [rowsUpTo_succ, List.length_append]
      have hpos := List.length_pos_iff.mpr hne
      omega
    · rw [rowsUpTo_succ, hrem, remaining_eq_append hu hpre hl, List.append_assoc]

theorem Lists.ends (h : Lists listing key rows At) (hu : UniqueOn key rows)
    (h₀ : At start pos₀)
    (hlim : ∀ i, 1 ≤ (limits i).toNat ∧ limits i ≠ UInt64.ofNat (2 ^ 64 - 1)) :
    ∃ n, (∀ i < n, (pageAt listing start limits i).more = true) ∧
      (pageAt listing start limits n).more = false ∧
      rowsUpTo listing start limits (n + 1) = remaining key pos₀ rows := by
  have hstop : ∃ n, (pageAt listing start limits n).more = false := by
    by_contra hnever
    have hmore : ∀ i < (remaining key pos₀ rows).length + 1,
        (pageAt listing start limits i).more = true := by
      intro i _
      exact Bool.eq_true_of_not_eq_false (not_exists.mp hnever i)
    obtain ⟨hlen, pos, -, hrem⟩ := h.upTo hu h₀ (fun i => (hlim i).1) _ hmore
    have htotal := congrArg List.length hrem
    rw [List.length_append] at htotal
    omega
  classical
  let n := Nat.find hstop
  have hmore : ∀ i < n, (pageAt listing start limits i).more = true := fun i hi =>
    Bool.eq_true_of_not_eq_false (Nat.find_min hstop hi)
  have hlast : (pageAt listing start limits n).more = false := Nat.find_spec hstop
  refine ⟨n, hmore, hlast, ?_⟩
  obtain ⟨-, pos, hat, hrem⟩ := h.upTo hu h₀ (fun i => (hlim i).1) n hmore
  obtain ⟨hrows, hm, -⟩ := h _ _ (limits n) hat
  rw [rowsUpTo_succ, hrem, pageAt, hrows]
  rw [lookAhead_complete (hlim n).2 (hm ▸ hlast)]

/-- A reader of fixed rows that all come after the start enumerates them. -/
theorem Lists.enumerates (h : Lists listing key rows At) (hu : UniqueOn key rows)
    (h₀ : At start pos₀) (hall : ∀ r ∈ rows, pos₀.all (· < key r)) (hsize : rows.length < 2 ^ 63)
    (hlim : ∀ i, 1 ≤ (limits i).toNat ∧ limits i ≠ UInt64.ofNat (2 ^ 64 - 1)) :
    ∃ n, Enumerates listing start limits key rows n := by
  have hperm : (remaining key pos₀ rows).Perm rows := by
    have hfilter : rows.filter (fun r => pos₀.all (· < key r)) = rows :=
      List.filter_eq_self.mpr hall
    exact remaining_perm.trans (List.Perm.of_eq hfilter)
  obtain ⟨n, hmore, hlast, hend⟩ := h.ends hu h₀ hlim
  refine ⟨n, hmore, hlast, fun i hi => ?_, hend ▸ hperm, ?_⟩
  · obtain ⟨-, pos, hat, hrem⟩ := h.upTo hu h₀ (fun i => (hlim i).1) i
      fun j hj => hmore j (by omega)
    have hle := congrArg List.length hrem
    rw [hperm.length_eq, List.length_append] at hle
    rw [pageAt, (h _ _ (limits i) hat).1]
    exact length_lookAhead_le (hlim i).2 (by omega)
  · rw [hend]
    have hne : (remaining key pos₀ rows).Pairwise fun a b => key a ≠ key b := by
      have hkeys : UniqueOn key (remaining key pos₀ rows) := (hperm.map key).nodup_iff.mpr hu
      exact List.pairwise_map.mp hkeys
    exact ((remaining_sorted key pos₀ rows).and hne).imp fun hab => lt_of_le_of_ne hab.1 hab.2

variable (listing key rows At) in
/-- From the cursor on, each page moves on: it is not empty if there are rows left, the next cursor
comes after the given one if there is more, and the reader stops with all rows that were left. -/
structure Progress (cursor : π) (pos : Option κ) (limit : UInt64) : Prop where
  nonempty : remaining key pos rows ≠ [] → (listing cursor limit).rows ≠ []
  forward : (listing cursor limit).more = true →
    ∃ k, At (listing cursor limit).next (some k) ∧ pos.all (· < k)
  ends : ∃ n, (∀ i < n, (pageAt listing cursor (fun _ => limit) i).more = true) ∧
    (pageAt listing cursor (fun _ => limit) n).more = false ∧
    rowsUpTo listing cursor (fun _ => limit) (n + 1) = remaining key pos rows

/-- Paging makes progress, except with a limit of 0 and one that wraps around to it. -/
theorem Lists.progress_iff (h : Lists listing key rows At) (hu : UniqueOn key rows) {cursor : π}
    {pos : Option κ} (hat : At cursor pos) {limit : UInt64} :
    Progress listing key rows At cursor pos limit ↔
      remaining key pos rows = [] ∨ limit ≠ 0 ∧ limit ≠ UInt64.ofNat (2 ^ 64 - 1) := by
  obtain ⟨hrows, hm, hnext⟩ := h _ _ limit hat
  constructor
  · intro hp
    by_cases hnil : remaining key pos rows = []
    · exact .inl hnil
    · have hne := hp.nonempty hnil
      rw [hrows, ne_eq, lookAhead_eq_nil] at hne
      tauto
  · intro hcond
    by_cases hnil : remaining key pos rows = []
    · rw [hnil, lookAhead_nil] at hrows hm
      refine ⟨fun hne => absurd hnil hne, fun hmore => ?_, 0, ?_, hm, ?_⟩
      · rw [hm] at hmore
        cases hmore
      · intro i hi
        omega
      · rw [rowsUpTo_succ, hnil]
        exact hrows
    · obtain ⟨hzero, hmax⟩ := hcond.resolve_left hnil
      have hne : (listing cursor limit).rows ≠ [] := by
        rw [hrows, ne_eq, lookAhead_eq_nil]
        tauto
      refine ⟨fun _ => hne, fun _ => ?_, ?_⟩
      · obtain ⟨l, hl⟩ := Option.ne_none_iff_exists'.mp (mt List.getLast?_eq_none_iff.mp hne)
        refine ⟨key l, hnext l hl, ?_⟩
        rw [hrows] at hl
        exact (mem_remaining.mp ((lookAhead_isPrefix _ _).subset (List.mem_of_getLast? hl))).2
      · exact h.ends hu hat fun _ => ⟨one_le_toNat hzero, hmax⟩

end Reader

end VoxServer.Table
