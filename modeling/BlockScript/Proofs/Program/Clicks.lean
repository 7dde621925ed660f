import BlockScript.Proofs.Number.Finite
import BlockScript.Proofs.Options.Valid

namespace BlockScript.Session

def time (options : Options) (n : Nat) : Float := Float.ofNat n * delta options

/-- The first frame that is not before a click. -/
def firstFrame? (options : Options) (click : ScheduledClick) : Option Nat :=
  (List.range options.frames.toNat).find? fun n => click.time ≤ time options n

/-- The clicks for which a frame is the first one. -/
def due (options : Options) (n : Nat) : List ScheduledClick :=
  (inOrder options.clicks).filter fun click => firstFrame? options click = some n

/-- Some clicks by their time, where those of the same time keep their order. -/
structure InTimeOrder (given ordered : List ScheduledClick) : Prop where
  perm : ordered.Perm given
  sorted : ordered.Pairwise fun a b => Number.rank a.time ≤ Number.rank b.time
  stable : ∀ rank, (ordered.filter fun click => Number.rank click.time = rank) =
    given.filter fun click => Number.rank click.time = rank

section Order

variable {clicks given ordered : List ScheduledClick}

def isNotAfter (a b : ScheduledClick) : Bool := Number.rank a.time ≤ Number.rank b.time

theorem isNotAfter_trans (a b c : ScheduledClick) (hab : isNotAfter a b) (hbc : isNotAfter b c) :
    isNotAfter a c :=
  decide_eq_true (Int.le_trans (of_decide_eq_true hab) (of_decide_eq_true hbc))

theorem isNotAfter_total (a b : ScheduledClick) : isNotAfter a b || isNotAfter b a := by
  rw [Bool.or_eq_true]
  exact (Int.le_total _ _).imp decide_eq_true decide_eq_true

theorem perm_inOrder (clicks : List ScheduledClick) : (inOrder clicks).Perm clicks :=
  List.mergeSort_perm clicks isNotAfter

/-- Clicks of one time are in order before anything is sorted, and so they stay a sublist. -/
theorem filter_inOrder (clicks : List ScheduledClick) (rank : Int) :
    ((inOrder clicks).filter fun click => Number.rank click.time = rank) =
      clicks.filter fun click => Number.rank click.time = rank := by
  have hsame : (clicks.filter fun click => Number.rank click.time = rank).Pairwise
      (isNotAfter · ·) := by
    apply List.pairwise_of_forall_mem_list
    intro a ha b hb
    have ha : Number.rank a.time = rank := of_decide_eq_true (List.mem_filter.1 ha).2
    have hb : Number.rank b.time = rank := of_decide_eq_true (List.mem_filter.1 hb).2
    exact decide_eq_true (Int.le_of_eq (ha.trans hb.symm))
  have hsublist := List.sublist_mergeSort isNotAfter_trans isNotAfter_total hsame
    List.filter_sublist
  have hfiltered := hsublist.filter fun click => Number.rank click.time = rank
  simp only [List.filter_filter, Bool.and_self] at hfiltered
  exact (hfiltered.eq_of_length ((perm_inOrder clicks).filter _).length_eq.symm).symm

theorem inTimeOrder_inOrder (clicks : List ScheduledClick) :
    InTimeOrder clicks (inOrder clicks) where
  perm := perm_inOrder clicks
  sorted := (List.pairwise_mergeSort isNotAfter_trans isNotAfter_total clicks).imp of_decide_eq_true
  stable := filter_inOrder clicks

theorem InTimeOrder.filter (h : InTimeOrder given ordered) (p : ScheduledClick → Bool) :
    InTimeOrder (given.filter p) (ordered.filter p) where
  perm := h.perm.filter p
  sorted := h.sorted.filter p
  stable := by
    intro rank
    have hstable := congrArg (List.filter p) (h.stable rank)
    simp only [List.filter_filter, Bool.and_comm] at hstable ⊢
    exact hstable

end Order

section Queue

variable {α : Type} {p : α → Bool} {as : List α}

theorem takeWhile_eq_filter (h : as.Pairwise fun a b => p b → p a) :
    as.takeWhile p = as.filter p := by
  induction h with
  | nil => rfl
  | @cons a as hfront _ ih =>
    by_cases ha : p a
    · rw [List.takeWhile_cons_of_pos ha, List.filter_cons_of_pos ha, ih]
    · have hnone : as.filter p = [] :=
        List.filter_eq_nil_iff.2 fun b hb hpb => ha (hfront b hb hpb)
      rw [List.takeWhile_cons_of_neg ha, List.filter_cons_of_neg ha, hnone]

theorem dropWhile_eq_filter (h : as.Pairwise fun a b => p b → p a) :
    as.dropWhile p = as.filter fun a => !p a := by
  induction h with
  | nil => rfl
  | @cons a as hfront _ ih =>
    by_cases ha : p a
    · rw [List.dropWhile_cons_of_pos ha, List.filter_cons_of_neg (by simp [ha]), ih]
    · have hall : as.filter (fun b => !p b) = as := by
        apply List.filter_eq_self.2
        intro b hb
        simpa using fun hpb => ha (hfront b hb hpb)
      rw [List.dropWhile_cons_of_neg ha, List.filter_cons_of_pos (by simpa using ha), hall]

theorem filter_append_filter {q r : α → Bool} (hr : ∀ a, r a ↔ p a ∨ q a)
    (hexclude : ∀ a, p a → ¬q a) (as : List α) :
    (as.filter p ++ as.filter q).Perm (as.filter r) := by
  have hfirst : (as.filter r).filter p = as.filter p := by
    rw [List.filter_filter]
    apply List.filter_congr
    intro a _
    have hra := hr a
    grind
  have hsecond : ((as.filter r).filter fun a => !p a) = as.filter q := by
    rw [List.filter_filter]
    apply List.filter_congr
    intro a _
    have hra := hr a
    have hpa := hexclude a
    grind
  rw [← hfirst, ← hsecond]
  exact List.filter_append_perm p _

theorem flatMap_filter (number : α → Option Nat) (as : List α) (k : Nat) :
    ((List.range k).flatMap fun n => as.filter fun a => number a = some n).Perm
      (as.filter fun a => ∃ n < k, number a = some n) := by
  induction k with
  | zero =>
    rw [List.filter_eq_nil_iff.2]
    · exact .refl _
    · simp
  | succ k ih =>
    rw [List.range_succ, List.flatMap_append, List.flatMap_singleton]
    refine (ih.append_right _).trans (filter_append_filter ?_ ?_ as)
    · intro a
      simp only [decide_eq_true_eq]
      rw [Nat.exists_lt_succ_right]
    · intro a hbelow hlast
      simp only [decide_eq_true_eq] at hbelow hlast
      obtain ⟨n, hn, hnumber⟩ := hbelow
      rw [hlast] at hnumber
      obtain rfl := Option.some.inj hnumber
      exact Nat.lt_irrefl k hn

end Queue

variable {options : Options} {click : ScheduledClick} {n : Nat}

theorem firstFrame?_eq_some_iff : firstFrame? options click = some n ↔
    n < options.frames.toNat ∧ click.time ≤ time options n ∧
      ∀ m < n, ¬click.time ≤ time options m := by
  rw [firstFrame?, List.find?_range_eq_some]
  simp [and_left_comm]

theorem firstFrame?_eq_none_iff : firstFrame? options click = none ↔
    ∀ n < options.frames.toNat, ¬click.time ≤ time options n := by
  rw [firstFrame?, List.find?_range_eq_none]
  simp

/-- The clicks that no frame before one has delivered. -/
def queue (options : Options) (n : Nat) : List ScheduledClick :=
  (inOrder options.clicks).filter fun click => ∀ m < n, ¬click.time ≤ time options m

theorem queue_zero (options : Options) : queue options 0 = inOrder options.clicks :=
  List.filter_eq_self.2 fun _ _ => decide_eq_true nofun

theorem queue_pairwise (options : Options) (n : Nat) (now : Float) :
    (queue options n).Pairwise fun a b => decide (b.time ≤ now) → decide (a.time ≤ now) := by
  apply ((inTimeOrder_inOrder options.clicks).filter _).sorted.imp
  intro a b hrank hb
  exact decide_eq_true (Number.le_of_rank_le hrank (of_decide_eq_true hb))

theorem takeWhile_queue (hn : n < options.frames.toNat) :
    (queue options n).takeWhile (·.time ≤ time options n) = due options n := by
  rw [takeWhile_eq_filter (queue_pairwise options n _), queue, due, List.filter_filter]
  apply List.filter_congr
  intro click _
  simp only [firstFrame?_eq_some_iff, hn, true_and, Bool.decide_and]

theorem dropWhile_queue (options : Options) (n : Nat) :
    (queue options n).dropWhile (·.time ≤ time options n) = queue options (n + 1) := by
  rw [dropWhile_eq_filter (queue_pairwise options n _), queue, queue, List.filter_filter]
  apply List.filter_congr
  intro click _
  rw [← decide_not, ← Bool.decide_and]
  apply decide_eq_decide.2
  rw [Nat.forall_lt_succ_right]
  exact and_comm

theorem flatMap_due (options : Options) :
    ((List.range options.frames.toNat).flatMap (due options)).Perm
      (options.clicks.filter fun click => (firstFrame? options click).isSome) := by
  have hsome : ∀ click, (∃ n < options.frames.toNat, firstFrame? options click = some n) ↔
      (firstFrame? options click).isSome := by
    intro click
    rw [Option.isSome_iff_exists]
    constructor
    · intro ⟨n, _, hn⟩
      exact ⟨n, hn⟩
    · intro ⟨n, hn⟩
      exact ⟨n, (firstFrame?_eq_some_iff.1 hn).1, hn⟩
  have hperm := flatMap_filter (firstFrame? options) (inOrder options.clicks) options.frames.toNat
  simp only [hsome, Bool.decide_eq_true] at hperm
  exact hperm.trans ((inTimeOrder_inOrder options.clicks).perm.filter _)

theorem inTimeOrder_due (options : Options) (n : Nat) :
    InTimeOrder (options.clicks.filter fun click => firstFrame? options click = some n)
      (due options n) :=
  (inTimeOrder_inOrder options.clicks).filter _

theorem time_lt_of_firstFrame? (hvalid : options.Valid) (hclick : click ∈ options.clicks)
    (hnone : firstFrame? options click = none) (hn : n < options.frames.toNat) :
    time options n < click.time := by
  have hframe : (time options n).isFinite = true := by
    apply Number.isFinite_time _ hvalid.frameRate
    exact Nat.lt_trans hn options.frames.toNat_lt
  have hclick : click.time.isFinite = true := hvalid.finite click hclick
  apply Number.lt_of_not_le (Number.not_isNaN_of_isFinite hclick)
    (Number.not_isNaN_of_isFinite hframe)
  exact firstFrame?_eq_none_iff.1 hnone n hn

end BlockScript.Session
