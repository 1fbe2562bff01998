import Mathlib.Data.List.TakeWhile
import Mathlib.Order.WellFounded
import SystemyOperacyjne.Library.Tokens

/-!
# The words of a string

The words of a string are its longest runs of characters that are no delimiters. Calls of
`strtok` with one set of delimiters take them one by one (`words_of_strtok`,
`words_of_strtok_none`); `strtok_append` is the call on a string whose first word is known.
-/

set_option autoImplicit false

namespace SystemyOperacyjne.Library

variable {α : Type*} {delim : α → Bool} {w s : List α} {c : α}

/-- The longest runs of characters that are no delimiters, in order. -/
def words (delim : α → Bool) (s : List α) : List (List α) :=
  (s.splitOnP delim).filter (!·.isEmpty)

/-- Words on the two sides of a delimiter. -/
theorem words_append_cons (w s : List α) (hc : delim c = true) :
    words delim (w ++ c :: s) = words delim w ++ words delim s := by
  rw [words, List.splitOnP_append_cons w s hc, List.filter_append]
  rfl

/-- A string without delimiters is a word, unless it is empty. -/
theorem words_of_forall (hw : ∀ x ∈ w, delim x = false) :
    words delim w = if w = [] then [] else [w] := by
  rw [words, List.splitOnP_eq_singleton hw]
  cases w <;> rfl

/-- Delimiters in front change nothing. -/
theorem words_dropWhile (s : List α) : words delim (s.dropWhile delim) = words delim s := by
  induction s with
  | nil => rfl
  | cons c s ih =>
    by_cases hc : delim c = true
    · rw [List.dropWhile_cons_of_pos hc, ih]
      exact (words_append_cons [] s hc).symm
    · rw [List.dropWhile_cons_of_neg hc]

/-- What is taken up to the first delimiter has none. -/
theorem forall_mem_takeWhile (delim : α → Bool) (s : List α) :
    ∀ x ∈ s.takeWhile (fun x => !delim x), delim x = false := by
  intro x hx
  simpa using List.mem_takeWhile_imp hx

/-- What is dropped up to the first delimiter leaves it in front. -/
theorem delim_of_dropWhile (h : (s.dropWhile fun x => !delim x) = c :: w) : delim c = true := by
  have := List.head?_dropWhile_not (fun x => !delim x) s
  rw [h] at this
  simpa using this

/-- The words of a word and what follows it. -/
theorem words_takeWhile (s : List α) (hs : s.takeWhile (fun x => !delim x) ≠ []) :
    words delim s = s.takeWhile (fun x => !delim x) ::
      words delim (s.dropWhile fun x => !delim x).tail := by
  have hword := forall_mem_takeWhile delim s
  conv_lhs => rw [← List.takeWhile_append_dropWhile (p := fun x => !delim x) (l := s)]
  cases hdrop : s.dropWhile fun x => !delim x with
  | nil =>
    rw [List.append_nil, words_of_forall hword, if_neg hs]
    rfl
  | cons c rest =>
    rw [words_append_cons _ _ (delim_of_dropWhile hdrop), words_of_forall hword, if_neg hs]
    rfl

/-- No token is left: there is no word. -/
theorem words_of_strtok_none (h : strtok delim s = none) : words delim s = [] := by
  rw [← words_dropWhile s]
  unfold strtok at h
  split at h
  · rename_i hdrop
    rw [hdrop]
    rfl
  · cases h

/-- **A token is the first word**, and the others are in what it leaves. -/
theorem words_of_strtok {rest : List α} (h : strtok delim s = some (w, rest)) :
    words delim s = w :: words delim rest := by
  rw [← words_dropWhile s]
  unfold strtok at h
  split at h
  · cases h
  · rename_i c t hdrop
    have hc : delim c = false := by
      have := List.head?_dropWhile_not delim s
      rw [hdrop] at this
      simpa using this
    cases h
    rw [hdrop]
    apply words_takeWhile
    rw [List.takeWhile_cons_of_pos (by simpa using hc)]
    simp

/-- The token of a string that begins with the word `w`: it goes up to a delimiter or the end. -/
theorem strtok_word (hne : w ≠ []) (hw : ∀ x ∈ w, delim x = false)
    (hs : ∀ c ∈ s.head?, delim c = true) : strtok delim (w ++ s) = some (w, s.tail) := by
  cases w with
  | nil => exact absurd rfl hne
  | cons x w =>
    have hx : delim x = false := hw x (List.mem_cons_self ..)
    have htake : ∀ y ∈ x :: w, (fun y => !delim y) y = true := by
      intro y hy
      simpa using hw y hy
    have hdrop : (x :: w ++ s).dropWhile delim = x :: (w ++ s) :=
      List.dropWhile_cons_of_neg (by simp [hx])
    rw [strtok, hdrop]
    simp only
    rw [← List.cons_append, List.takeWhile_append_of_pos htake, List.dropWhile_append_of_pos htake]
    cases s with
    | nil => simp
    | cons c s => simp [hs c rfl]

/-- The first word ends at the first delimiter. -/
theorem strtok_append (hne : w ≠ []) (hw : ∀ x ∈ w, delim x = false) (hc : delim c = true)
    (s : List α) : strtok delim (w ++ c :: s) = some (w, s) := by
  apply strtok_word hne hw
  intro d hd
  cases hd
  exact hc

/-- Or at the end of the text. -/
theorem strtok_self (hne : w ≠ []) (hw : ∀ x ∈ w, delim x = false) :
    strtok delim w = some (w, []) := by
  have htoken := strtok_word (s := []) hne hw fun c hc => by cases hc
  rwa [List.append_nil] at htoken

/-- **Induction on the delimiters**: a string is free of them, or a string that is free of them
stands in front of its first. -/
theorem delimiter_induction (delim : α → Bool) {P : List α → Prop}
    (free : ∀ w, (∀ x ∈ w, delim x = false) → P w)
    (append : ∀ w c s, (∀ x ∈ w, delim x = false) → delim c = true → P s → P (w ++ c :: s))
    (s : List α) : P s := by
  induction hn : s.length using Nat.strong_induction_on generalizing s with
  | _ n ih =>
    have hword := forall_mem_takeWhile delim s
    have hsplit := List.takeWhile_append_dropWhile (p := fun x => !delim x) (l := s)
    cases hdrop : s.dropWhile fun x => !delim x with
    | nil =>
      rw [hdrop, List.append_nil] at hsplit
      rw [← hsplit]
      exact free _ hword
    | cons c t =>
      rw [hdrop] at hsplit
      have hlength := congrArg List.length hsplit
      rw [List.length_append, List.length_cons] at hlength
      rw [← hsplit]
      exact append _ c t hword (delim_of_dropWhile hdrop) (ih t.length (by omega) t rfl)

/-- A character that is no delimiter is in a word. -/
theorem mem_words {x : α} (hx : x ∈ s) (hd : delim x = false) :
    ∃ w ∈ words delim s, x ∈ w := by
  induction s using delimiter_induction delim with
  | free w hw =>
    rw [words_of_forall hw, if_neg (List.ne_nil_of_mem hx)]
    exact ⟨w, List.mem_singleton_self w, hx⟩
  | append w c s hw hc ih =>
    rw [words_append_cons w s hc]
    rw [List.mem_append, List.mem_cons] at hx
    rcases hx with hx | rfl | hx
    · rw [words_of_forall hw, if_neg (List.ne_nil_of_mem hx)]
      exact ⟨w, List.mem_append_left _ (List.mem_singleton_self w), hx⟩
    · rw [hd] at hc
      cases hc
    · obtain ⟨v, hv, hxv⟩ := ih hx
      exact ⟨v, List.mem_append_right _ hv, hxv⟩

/-- No character of a word is a delimiter. -/
theorem not_delim_of_mem_words {x : α} (hw : w ∈ words delim s) (hx : x ∈ w) :
    delim x = false := by
  induction s using delimiter_induction delim with
  | free v hv =>
    rw [words_of_forall hv] at hw
    split at hw
    · cases hw
    · rw [List.mem_singleton.mp hw] at hx
      exact hv x hx
  | append v c s hv hc ih =>
    rw [words_append_cons v s hc, words_of_forall hv] at hw
    rcases List.mem_append.mp hw with hw | hw
    · split at hw
      · cases hw
      · rw [List.mem_singleton.mp hw] at hx
        exact hv x hx
    · exact ih hw

/-- Two sets of delimiters that agree on the characters of the string give the same words. -/
theorem words_congr {d : α → Bool} (h : ∀ x ∈ s, d x = delim x) : words d s = words delim s := by
  induction s using delimiter_induction delim with
  | free w hw =>
    rw [words_of_forall hw]
    exact words_of_forall fun x hx => (h x hx).trans (hw x hx)
  | append w c s hw hc ih =>
    have hfront : words d w = words delim w := by
      rw [words_of_forall hw]
      exact words_of_forall fun x hx => (h x (List.mem_append_left _ hx)).trans (hw x hx)
    rw [words_append_cons w s hc, words_append_cons w s ((h c (by simp)).trans hc), hfront]
    rw [ih fun x hx => h x (by simp [hx])]

end SystemyOperacyjne.Library
