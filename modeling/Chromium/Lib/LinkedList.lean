import Mathlib.Data.List.Chain
import Mathlib.Data.List.Nodup

/-!
# Doubly linked lists

`Links next prev xs`: the links `next` and `prev` run through the elements of `xs` in order; the
first element is its own predecessor and the last one its own successor.  The lemmas say what the
links of an element are (`Links.before`, `Links.after`), and which links are to be changed when an
element is put in front of the list (`Links.cons`) or taken out of it (`Links.remove`).
-/

namespace Lib

universe u

variable {α : Type u} {next prev next' prev' : α → α} {xs pre post : List α} {a b r : α}

structure Links (next prev : α → α) (xs : List α) : Prop where
  first : ∀ a ∈ xs.head?, prev a = a
  last : ∀ a ∈ xs.getLast?, next a = a
  chain : xs.IsChain fun a b => next a = b ∧ prev b = a

theorem links_nil : Links next prev [] := ⟨by simp, by simp, List.IsChain.nil⟩

theorem Links.congr (h : Links next prev xs)
    (hsame : ∀ a ∈ xs, next' a = next a ∧ prev' a = prev a) : Links next' prev' xs := by
  refine ⟨fun a ha => ?_, fun a ha => ?_, ?_⟩
  · rw [(hsame a (List.mem_of_mem_head? ha)).2]
    exact h.first a ha
  · rw [(hsame a (List.mem_of_mem_getLast? ha)).1]
    exact h.last a ha
  · refine List.isChain_iff_getElem.2 fun i hi => ?_
    have hlink := List.isChain_iff_getElem.1 h.chain i hi
    rw [(hsame _ (List.getElem_mem _)).1, (hsame _ (List.getElem_mem _)).2]
    exact hlink

theorem Links.after (h : Links next prev (pre ++ r :: b :: post)) : next r = b ∧ prev b = r := by
  have hchain := (List.isChain_append.1 h.chain).2.1
  exact (List.isChain_cons_cons.1 hchain).1

theorem Links.before (h : Links next prev (pre ++ a :: r :: post)) : next a = r ∧ prev r = a := h.after

theorem Links.head (h : Links next prev (r :: post)) : prev r = r := h.first r (by simp)

theorem Links.tail (h : Links next prev (pre ++ [r])) : next r = r := h.last r (by simp)

/-- **An element is put in front**: only the link back from the first element changes. -/
theorem Links.cons [DecidableEq α] (h : Links next prev xs) (hnot : r ∉ xs) (hprev : prev' r = r)
    (hnext : next' r = xs.head?.getD r) (hfirst : ∀ a ∈ xs.head?, prev' a = r)
    (hnexts : ∀ a ∈ xs, next' a = next a) (hprevs : ∀ a ∈ xs.tail, prev' a = prev a) :
    Links next' prev' (r :: xs) := by
  cases xs with
  | nil => exact ⟨by simpa using hprev, by simpa using hnext, List.IsChain.singleton r⟩
  | cons b post =>
    refine ⟨by simpa using hprev, fun a ha => ?_, ?_⟩
    · rw [List.getLast?_cons_cons] at ha
      rw [hnexts a (List.mem_of_mem_getLast? ha)]
      exact h.last a ha
    · refine List.isChain_cons_cons.2 ⟨⟨hnext, hfirst b (by simp)⟩, ?_⟩
      refine List.isChain_iff_getElem.2 fun i hi => ?_
      have hlink := List.isChain_iff_getElem.1 h.chain i hi
      rw [hnexts _ (List.getElem_mem _)]
      refine ⟨hlink.1, ?_⟩
      rw [hprevs _ (by simp)]
      exact hlink.2

/-- The links inside a part of the list that does not hold an element do not lead to it. -/
theorem isChain_of_notMem (hchain : xs.IsChain fun a b => next a = b ∧ prev b = a) (hnot : r ∉ xs)
    (hnext : ∀ a ∈ xs, next a ≠ r → next' a = next a)
    (hprev : ∀ a ∈ xs, prev a ≠ r → prev' a = prev a) :
    xs.IsChain fun a b => next' a = b ∧ prev' b = a := by
  refine List.isChain_iff_getElem.2 fun i hi => ?_
  obtain ⟨h1, h2⟩ := List.isChain_iff_getElem.1 hchain i hi
  have hne (j : ℕ) (hj : j < xs.length) : xs[j] ≠ r := fun he => hnot (he ▸ List.getElem_mem hj)
  constructor
  · rw [hnext _ (List.getElem_mem _) (by rw [h1]; exact hne _ _), h1]
  · rw [hprev _ (List.getElem_mem _) (by rw [h2]; exact hne _ _), h2]

theorem Links.remove [DecidableEq α] (h : Links next prev (pre ++ r :: post))
    (hnodup : (pre ++ r :: post).Nodup)
    (hnext : ∀ a ∈ pre ++ post, next' a = if next a = r then post.head?.getD a else next a)
    (hprev : ∀ a ∈ pre ++ post, prev' a = if prev a = r then pre.getLast?.getD a else prev a) :
    Links next' prev' (pre ++ post) := by
  obtain ⟨hnotpre, hnotpost⟩ : r ∉ pre ∧ r ∉ post := by
    rw [List.nodup_append, List.nodup_cons] at hnodup
    exact ⟨fun hr => hnodup.2.2 r hr r List.mem_cons_self rfl, hnodup.2.1.1⟩
  obtain ⟨hpre, hpost, hjoin⟩ := List.isChain_append.1 h.chain
  refine ⟨fun a ha => ?_, fun a ha => ?_, List.isChain_append.2 ⟨?_, ?_, fun a ha b hb => ?_⟩⟩
  · rw [hprev a (List.mem_of_mem_head? ha)]
    cases pre with
    | nil =>
      obtain ⟨post', rfl⟩ : ∃ post', post = a :: post' := by
        cases post with
        | nil => simp at ha
        | cons b post' =>
          obtain rfl : b = a := by simpa using ha
          exact ⟨post', rfl⟩
      have hback : prev a = r := (show Links next prev ([] ++ r :: a :: post') from h).after.2
      rw [if_pos hback]
      rfl
    | cons b pre' =>
      obtain rfl : b = a := by simpa using ha
      have hself : prev b = b := h.head
      have hne : b ≠ r := fun he => hnotpre (he ▸ List.mem_cons_self)
      rw [hself, if_neg hne]
  · rw [hnext a (List.mem_of_mem_getLast? ha)]
    rcases List.eq_nil_or_concat post with rfl | ⟨post', b, rfl⟩
    · obtain ⟨pre', rfl⟩ : ∃ pre', pre = pre' ++ [a] := by
        rcases List.eq_nil_or_concat pre with rfl | ⟨pre', b, rfl⟩
        · simp at ha
        · obtain rfl : b = a := by simpa using ha
          exact ⟨pre', by simp⟩
      have hforth : next a = r := by
        rw [List.append_assoc] at h
        exact h.before.1
      rw [if_pos hforth]
      rfl
    · obtain rfl : b = a := by simpa using ha
      have hself : next b = b := by
        refine h.last b ?_
        rw [List.concat_eq_append, ← List.cons_append, ← List.append_assoc, List.getLast?_concat]
        rfl
      have hne : b ≠ r := fun he => hnotpost (he ▸ by simp)
      rw [hself, if_neg hne]
  · refine isChain_of_notMem hpre hnotpre (fun a ha hne => ?_) fun a ha hne => ?_
    · rw [hnext a (List.mem_append_left _ ha), if_neg hne]
    · rw [hprev a (List.mem_append_left _ ha), if_neg hne]
  · refine isChain_of_notMem (List.isChain_cons.1 hpost).2 hnotpost (fun a ha hne => ?_)
      fun a ha hne => ?_
    · rw [hnext a (List.mem_append_right _ ha), if_neg hne]
    · rw [hprev a (List.mem_append_right _ ha), if_neg hne]
  · have hforth : next a = r := (hjoin a ha r (by simp)).1
    have hback : prev b = r := ((List.isChain_cons.1 hpost).1 b hb).2
    rw [hnext a (List.mem_append_left _ (List.mem_of_mem_getLast? ha)),
      hprev b (List.mem_append_right _ (List.mem_of_mem_head? hb)), if_pos hforth, if_pos hback]
    rw [Option.mem_def] at ha hb
    rw [ha, hb]
    exact ⟨rfl, rfl⟩

end Lib
