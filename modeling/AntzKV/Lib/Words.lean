/-
AntzKV.Lib.Words — the words of a text.

The words are the maximal runs without a separator, in the order in which
`strtok` finds them. A separator cuts the words of a text in two
(`words_append_cons`). Every other letter belongs to a word
(`sum_length_words`), so a beginning of a text has all of its words
exactly when only separators follow (`words_take_eq_iff`).
-/
import Mathlib

namespace Words

variable {α : Type} {p : α → Bool}

/-- The words of a text; `p` tells the separators. -/
def words (p : α → Bool) (l : List α) : List (List α) :=
  (l.splitOnP p).filter fun w => !w.isEmpty

@[simp] theorem words_nil : words p [] = [] := rfl

theorem words_append_cons {c : α} (hc : p c = true) (a b : List α) :
    words p (a ++ c :: b) = words p a ++ words p b := by
  rw [words, List.splitOnP_append_cons a b hc, List.filter_append]
  rfl

theorem words_eq_singleton {w : List α} (hw : ∀ x ∈ w, p x = false) (hne : w ≠ []) :
    words p w = [w] := by
  rw [words, List.splitOnP_eq_singleton hw]
  simp [hne]

/-- Separators at the end add no words. -/
theorem words_append_seps {seps : List α} (hseps : ∀ c ∈ seps, p c = true) (l : List α) :
    words p (l ++ seps) = words p l := by
  induction seps generalizing l with
  | nil => rw [List.append_nil]
  | cons c seps ih =>
    have hrest : words p seps = [] := ih (fun x hx => hseps x (by simp [hx])) []
    rw [words_append_cons (hseps c (by simp)), hrest, List.append_nil]

theorem words_cons_sep {c : α} (hc : p c = true) (l : List α) : words p (c :: l) = words p l :=
  words_append_cons hc [] l

/-- A letter begins a word, which goes on to the next separator. -/
theorem words_cons_letter {c : α} (hc : p c = false) (l : List α) :
    words p (c :: l)
      = (c :: l.takeWhile (!p ·)) :: words p (l.dropWhile (!p ·)) := by
  have hword : ∀ x ∈ c :: l.takeWhile (!p ·), p x = false := by
    intro x hx
    rcases List.mem_cons.mp hx with rfl | hx
    · exact hc
    · simpa using List.mem_takeWhile_imp hx
  have hsplit : c :: l = (c :: l.takeWhile (!p ·)) ++ l.dropWhile (!p ·) := by
    rw [List.cons_append, List.takeWhile_append_dropWhile]
  rw [hsplit]
  cases hrest : l.dropWhile (!p ·) with
  | nil => rw [List.append_nil, words_eq_singleton hword (List.cons_ne_nil c _), words_nil]
  | cons d t =>
    have hd : p d = true := by
      have hhead := List.head?_dropWhile_not (fun x => !p x) l
      rw [hrest] at hhead
      simpa using hhead
    rw [words_append_cons hd, words_eq_singleton hword (List.cons_ne_nil c _),
      List.singleton_append, words_cons_sep hd]

/-- The letters of a text are those of its words. -/
theorem sum_length_words (l : List α) :
    ((words p l).map List.length).sum = l.countP fun x => !p x := by
  induction l with
  | nil => rfl
  | cons x l ih =>
    by_cases hx : p x = true
    · rw [words_cons_sep hx, ih]
      simp [hx]
    · obtain ⟨w, ws, hsplit⟩ := List.exists_cons_of_ne_nil (List.splitOnP_ne_nil p l)
      have hcons : words p (x :: l) = (x :: w) :: ws.filter fun w => !w.isEmpty := by
        simp [words, List.splitOnP_cons_eq_if_modifyHead, hx, hsplit]
      rw [words, hsplit] at ih
      rw [hcons, List.countP_cons, ← ih]
      cases w with
      | nil => simp [hx, Nat.add_comm]
      | cons y w =>
        simp only [List.map_cons, List.sum_cons, List.length_cons, List.filter_cons,
          List.isEmpty_cons, Bool.not_false, if_true, hx]
        omega

theorem of_mem_words {l w : List α} (hw : w ∈ words p l) : w ≠ [] := by
  have hne := (List.mem_filter.mp hw).2
  simpa using hne

theorem length_le_of_mem_words {l w : List α} (hw : w ∈ words p l) : w.length ≤ l.length :=
  calc w.length ≤ ((words p l).map List.length).sum :=
        List.le_sum_of_mem (List.mem_map_of_mem hw)
    _ = l.countP fun x => !p x := sum_length_words l
    _ ≤ l.length := List.countP_le_length

/-- No letter of a word is a separator. -/
theorem letter_of_mem_words {l w : List α} (hw : w ∈ words p l) : ∀ x ∈ w, p x = false := by
  induction hn : l.length using Nat.strong_induction_on generalizing l with
  | _ n ih =>
    cases l with
    | nil => cases hw
    | cons c l =>
      have hlen : l.length < n := by rw [← hn]; exact Nat.lt_succ_self _
      cases hc : p c with
      | true =>
        rw [words_cons_sep hc] at hw
        exact ih _ hlen hw rfl
      | false =>
        rw [words_cons_letter hc] at hw
        rcases List.mem_cons.mp hw with rfl | hw
        · intro x hx
          rcases List.mem_cons.mp hx with rfl | hx
          · exact hc
          · simpa using List.mem_takeWhile_imp hx
        · have hdrop := (List.dropWhile_sublist (l := l) (!p ·)).length_le
          exact ih _ (lt_of_le_of_lt hdrop hlen) hw rfl

/-- Words take their letters from the text. -/
theorem mem_of_mem_words {l w : List α} (hw : w ∈ words p l) : ∀ x ∈ w, x ∈ l := by
  induction l generalizing w with
  | nil => cases hw
  | cons x l ih =>
    by_cases hx : p x = true
    · rw [words_cons_sep hx] at hw
      exact fun y hy => List.mem_cons_of_mem x (ih hw y hy)
    · obtain ⟨v, vs, hsplit⟩ := List.exists_cons_of_ne_nil (List.splitOnP_ne_nil p l)
      have hcons : words p (x :: l) = (x :: v) :: vs.filter fun w => !w.isEmpty := by
        simp [words, List.splitOnP_cons_eq_if_modifyHead, hx, hsplit]
      have hsub : ∀ u ∈ v :: vs, ∀ y ∈ u, y ∈ l := by
        intro u hu y hy
        have hwords : u ∈ words p l := by
          rw [words, hsplit, List.mem_filter]
          exact ⟨hu, by cases u <;> simp_all⟩
        exact ih hwords y hy
      rw [hcons] at hw
      intro y hy
      rcases List.mem_cons.mp hw with rfl | hw
      · rcases List.mem_cons.mp hy with rfl | hy
        · exact List.mem_cons_self
        · exact List.mem_cons_of_mem x (hsub v List.mem_cons_self y hy)
      · have hu := List.mem_cons_of_mem v (List.mem_filter.mp hw).1
        exact List.mem_cons_of_mem x (hsub w hu y hy)

theorem length_splitOnP (l : List α) : (l.splitOnP p).length = l.countP p + 1 := by
  induction l with
  | nil => rfl
  | cons x l ih =>
    rw [List.splitOnP_cons_eq_if_modifyHead]
    by_cases hx : p x = true
    · simp [hx, ih]
    · simp [hx, ih]

/-- There is a separator between two words. -/
theorem length_words_le_countP (l : List α) : (words p l).length ≤ l.countP p + 1 := by
  rw [← length_splitOnP]
  exact List.length_filter_le _ _

/-- The words, each with one separator, fit the text with one more. -/
theorem sum_length_succ_words_le (l : List α) :
    ((words p l).map fun w => w.length + 1).sum ≤ l.length + 1 := by
  have hletters : ((words p l).map fun w => w.length + 1).sum
      = (l.countP fun x => !p x) + (words p l).length := by
    rw [List.sum_map_add, sum_length_words]
    simp
  have hseps := length_words_le_countP (p := p) l
  have hparts : l.length = l.countP p + l.countP fun x => !p x := by
    simpa using List.length_eq_countP_add_countP p (l := l)
  omega

theorem length_words_le (l : List α) : 2 * (words p l).length ≤ l.length + 1 := by
  have hsplit := length_words_le_countP (p := p) l
  have hsum : (words p l).length ≤ ((words p l).map List.length).sum := by
    have hone : ∀ n ∈ (words p l).map List.length, 1 ≤ n := by
      intro n hn
      obtain ⟨w, hw, rfl⟩ := List.mem_map.mp hn
      exact List.length_pos_of_ne_nil (of_mem_words hw)
    have hle := List.card_nsmul_le_sum _ 1 hone
    simpa using hle
  rw [sum_length_words] at hsum
  have hparts : l.length = l.countP p + l.countP fun x => !p x := by
    simpa using List.length_eq_countP_add_countP p (l := l)
  omega

/-- A beginning of a text has all of its words exactly when only
separators follow. -/
theorem words_take_eq_iff (n : Nat) (l : List α) :
    words p (l.take n) = words p l ↔ ∀ c ∈ l.drop n, p c = true := by
  constructor
  · intro hwords c hc
    have hsum := congrArg (fun ws => (List.map List.length ws).sum) hwords
    simp only [sum_length_words] at hsum
    have hcount : (l.drop n).countP (fun x => !p x) = 0 := by
      have hall : l.countP (fun x => !p x)
          = (l.take n).countP (fun x => !p x) + (l.drop n).countP fun x => !p x := by
        rw [← List.countP_append, List.take_append_drop]
      omega
    simpa using List.countP_eq_zero.mp hcount c hc
  · intro hseps
    conv_rhs => rw [← List.take_append_drop n l]
    rw [words_append_seps hseps]

theorem words_eq_nil_iff {l : List α} : words p l = [] ↔ ∀ c ∈ l, p c = true := by
  have hnone := words_take_eq_iff (p := p) 0 l
  rw [List.take_zero, words_nil, List.drop_zero] at hnone
  rw [eq_comm, hnone]

/-! ## The first word -/

/-- The first word is what stands behind the separators in front. -/
theorem head?_words (l : List α) :
    (words p l).head? = if l.dropWhile p = [] then none
      else some ((l.dropWhile p).takeWhile (!p ·)) := by
  induction l with
  | nil => rfl
  | cons c l ih =>
    cases hc : p c with
    | true => rw [words_cons_sep hc, ih, List.dropWhile_cons_of_pos hc]
    | false =>
      have hne : ¬ p c = true := by simp [hc]
      rw [words_cons_letter hc, List.dropWhile_cons_of_neg hne, if_neg (List.cons_ne_nil c l),
        List.takeWhile_cons_of_pos (by simp [hc])]
      rfl

/-- Where the first word ends. -/
def firstEnd (p : α → Bool) (l : List α) : Nat :=
  (l.takeWhile p).length + ((l.dropWhile p).takeWhile (!p ·)).length

/-- A beginning of a text has its first word exactly when the word ends
there, or there is none. -/
theorem head?_words_take_iff (n : Nat) (l : List α) :
    (words p (l.take n)).head? = (words p l).head? ↔
      (∀ c ∈ l, p c = true) ∨ firstEnd p l ≤ n := by
  induction l generalizing n with
  | nil => simp
  | cons c l ih =>
    cases hc : p c with
    | true =>
      have hend : firstEnd p (c :: l) = firstEnd p l + 1 := by
        simp only [firstEnd, List.takeWhile_cons_of_pos hc, List.dropWhile_cons_of_pos hc,
          List.length_cons]
        omega
      rw [words_cons_sep hc, List.forall_mem_cons, hend]
      cases n with
      | zero =>
        rw [List.take_zero, words_nil, List.head?_nil, eq_comm, List.head?_eq_none_iff,
          words_eq_nil_iff]
        simp [hc]
      | succ n =>
        rw [List.take_succ_cons, words_cons_sep hc, ih n]
        simp [hc]
    | false =>
      have hne : ¬ p c = true := by simp [hc]
      have hend : firstEnd p (c :: l) = (l.takeWhile (!p ·)).length + 1 := by
        simp [firstEnd, hc]
      have hall : ¬ ∀ x ∈ c :: l, p x = true := fun h => hne (h c List.mem_cons_self)
      rw [words_cons_letter hc, List.head?_cons, hend, or_iff_right hall]
      cases n with
      | zero => simp
      | succ n =>
        rw [List.take_succ_cons, words_cons_letter hc, List.head?_cons, Option.some.injEq,
          List.cons.injEq, and_iff_right rfl, ← List.take_takeWhile, List.take_eq_self_iff]
        omega

end Words
