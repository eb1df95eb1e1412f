import Mathlib.Data.List.Chain
import Mathlib.Data.List.Nodup

/-!
# Doubly linked lists with an end marker

`Linked prev next root xs`: the links `prev` and `next` run through the elements of `xs` in order, and `root`, which is
no element, stands before the first and after the last of them.  `Linked.remove` and `Linked.insert` say which links
are to be changed when an element is taken out or put in, `Linked.unique` that the links of the same elements make one
list only.
-/

namespace Lib

open List (append_assoc cons_append isChain_append isChain_cons_cons mem_append mem_append_left
  mem_append_right mem_cons mem_cons_of_mem mem_cons_self mem_singleton nil_append nodup_cons
  nodup_middle)

variable {α : Type*} {prev next prev' next' : α → α} {root : α} {xs ys l r : List α} {a b : α}

/-- Two neighbours: the links go from the one to the other, but the end marker has none. -/
def Joined (prev next : α → α) (root a b : α) : Prop := (a ≠ root → next a = b) ∧ (b ≠ root → prev b = a)

structure Linked (prev next : α → α) (root : α) (xs : List α) : Prop where
  nodup : xs.Nodup
  root_notMem : root ∉ xs
  chain : (root :: (xs ++ [root])).IsChain (Joined prev next root)

def before (root : α) (l : List α) : α := l.getLast?.getD root

def after (root : α) (r : List α) : α := r.head?.getD root

theorem getLast?_root_cons (root : α) (l : List α) : (root :: l).getLast? = some (before root l) := by
  rw [List.getLast?_cons, before]

theorem head?_append_root (root : α) (r : List α) : (r ++ [root]).head? = some (after root r) := by
  cases r with
  | nil | cons a r => rfl

theorem before_mem (h : before root l ≠ root) : before root l ∈ l := by
  rw [before] at h ⊢
  cases hlast : l.getLast? with
  | none =>
    rw [hlast] at h
    exact absurd rfl h
  | some a => exact List.mem_of_getLast? hlast

theorem after_mem (h : after root r ≠ root) : after root r ∈ r := by
  rw [after] at h ⊢
  cases hhead : r.head? with
  | none =>
    rw [hhead] at h
    exact absurd rfl h
  | some a => exact List.mem_of_mem_head? hhead

theorem eq_nil_of_before_eq_root (hroot : root ∉ l) (h : before root l = root) : l = [] := by
  by_contra hne
  have hlast : before root l = l.getLast hne := by
    rw [before, List.getLast?_eq_some_getLast hne]
    rfl
  exact hroot (h.symm.trans hlast ▸ List.getLast_mem hne)

theorem isChain_joined_congr (hnodup : xs.Nodup) (h : xs.IsChain (Joined prev next root))
    (hnext : ∀ a ∈ xs, a ≠ root → xs.getLast? ≠ some a → next' a = next a)
    (hprev : ∀ b ∈ xs, b ≠ root → xs.head? ≠ some b → prev' b = prev b) : xs.IsChain (Joined prev' next' root) := by
  rw [List.isChain_iff_forall_rel_of_append_cons_cons] at h ⊢
  intro a b l r hxs
  obtain ⟨hab, hba⟩ := h hxs
  have ha : a ∈ xs := hxs ▸ mem_append_right l mem_cons_self
  have hb : b ∈ xs := hxs ▸ mem_append_right l (mem_cons_of_mem a mem_cons_self)
  have hlast : xs.getLast? ≠ some a := by
    intro hlast
    rw [hxs, List.getLast?_append_cons, List.getLast?_cons_cons] at hlast
    rw [hxs] at hnodup
    exact (nodup_cons.1 hnodup.of_append_right).1 (List.mem_of_getLast? hlast)
  have hhead : xs.head? ≠ some b := by
    intro hhead
    have hsplit : xs = (l ++ [a]) ++ b :: r := by rw [hxs, append_assoc, List.singleton_append]
    rw [hsplit] at hnodup
    rw [hsplit, List.head?_append_of_ne_nil _ (List.append_ne_nil_of_right_ne_nil l (List.cons_ne_nil a []))] at hhead
    exact (List.nodup_append.1 hnodup).2.2 b (List.mem_of_mem_head? hhead) b mem_cons_self rfl
  exact ⟨fun hroot => (hnext a ha hroot hlast).trans (hab hroot), fun hroot => (hprev b hb hroot hhead).trans (hba hroot)⟩

/-- **A part of a list is replaced**: the links through the new part are joined to what stands before and after it,
and the other links stay. -/
theorem Linked.splice (m m' : List α) (h : Linked prev next root (l ++ (m ++ r))) (hnodup : (l ++ (m' ++ r)).Nodup)
    (hroot : root ∉ m') (hnext : ∀ a ∈ l ++ r, a ≠ before root l → next' a = next a)
    (hprev : ∀ b ∈ l ++ r, b ≠ after root r → prev' b = prev b)
    (hmid : (before root l :: (m' ++ [after root r])).IsChain (Joined prev' next' root)) :
    Linked prev' next' root (l ++ (m' ++ r)) := by
  have hchain := h.chain
  have hrootl : root ∉ l := fun hmem => h.root_notMem (mem_append_left _ hmem)
  have hrootr : root ∉ r := fun hmem => h.root_notMem (mem_append_right _ (mem_append_right _ hmem))
  have hl : l.Nodup := hnodup.of_append_left
  have hr : r.Nodup := hnodup.of_append_right.of_append_right
  rw [append_assoc, append_assoc, ← cons_append] at hchain
  obtain ⟨hfirst, hrest, -⟩ := isChain_append.1 hchain
  obtain ⟨-, hlast, -⟩ := isChain_append.1 hrest
  have hfirst' : (root :: l).IsChain (Joined prev' next' root) := by
    refine isChain_joined_congr (nodup_cons.2 ⟨hrootl, hl⟩) hfirst (fun a ha hne hlast => ?_) fun b hb hne _ => ?_
    · rw [getLast?_root_cons] at hlast
      exact hnext a (mem_append_left _ ((mem_cons.1 ha).resolve_left hne)) fun heq => hlast (congrArg some heq.symm)
    · have hbl := (mem_cons.1 hb).resolve_left hne
      refine hprev b (mem_append_left _ hbl) fun heq => ?_
      have hmem : b ∈ r := heq ▸ after_mem fun hroot' => hne (heq.trans hroot')
      exact (List.nodup_append.1 hnodup).2.2 b hbl b (mem_append_right _ hmem) rfl
  have hlast' : (r ++ [root]).IsChain (Joined prev' next' root) := by
    have hnodupr : (r ++ [root]).Nodup := List.nodup_append.2
      ⟨hr, List.nodup_singleton root, fun a ha b hb hab => hrootr (mem_singleton.1 hb ▸ hab ▸ ha)⟩
    have hmemr : ∀ {a}, a ∈ r ++ [root] → a ≠ root → a ∈ r := fun ha hne =>
      (mem_append.1 ha).resolve_right fun hroot' => hne (mem_singleton.1 hroot')
    refine isChain_joined_congr hnodupr hlast (fun a ha hne _ => ?_) fun b hb hne hhead => ?_
    · have har := hmemr ha hne
      refine hnext a (mem_append_right _ har) fun heq => ?_
      have hmem : a ∈ l := heq ▸ before_mem fun hroot' => hne (heq.trans hroot')
      exact (List.nodup_append.1 hnodup).2.2 a hmem a (mem_append_right _ har) rfl
    · rw [head?_append_root] at hhead
      exact hprev b (mem_append_right _ (hmemr hb hne)) fun heq => hhead (congrArg some heq.symm)
  refine ⟨hnodup, ?_, ?_⟩
  · rw [mem_append, mem_append, not_or, not_or]
    exact ⟨hrootl, hroot, hrootr⟩
  · obtain ⟨hin, hmid'⟩ := List.isChain_cons.1 hmid
    obtain ⟨hm, -, hout⟩ := isChain_append.1 hmid'
    rw [append_assoc, append_assoc, ← cons_append]
    refine isChain_append.2 ⟨hfirst', isChain_append.2 ⟨hm, hlast', ?_⟩, ?_⟩
    · intro a ha b hb
      rw [head?_append_root] at hb
      exact hout a ha b (by rwa [List.head?_singleton])
    · intro a ha b hb
      rw [getLast?_root_cons] at ha
      cases ha
      refine hin b ?_
      cases m' with
      | nil =>
        rw [nil_append, head?_append_root] at hb
        rwa [nil_append, List.head?_singleton]
      | cons c m' => exact hb

theorem Linked.congr (h : Linked prev next root xs) (hsame : ∀ a ∈ xs, prev' a = prev a ∧ next' a = next a) :
    Linked prev' next' root xs := by
  have hmem : ∀ {a}, a ∈ root :: (xs ++ [root]) → a ≠ root → a ∈ xs := fun ha hne =>
    (mem_append.1 ((mem_cons.1 ha).resolve_left hne)).resolve_right fun hroot =>
      hne (mem_singleton.1 hroot)
  refine ⟨h.nodup, h.root_notMem, h.chain.imp_of_mem_imp fun a b ha hb hab => ?_⟩
  exact ⟨fun hne => (hsame a (hmem ha hne)).2.trans (hab.1 hne), fun hne => (hsame b (hmem hb hne)).1.trans (hab.2 hne)⟩

theorem Linked.links (h : Linked prev next root (l ++ a :: r)) : prev a = before root l ∧ next a = after root r := by
  have ha : a ≠ root := fun heq => h.root_notMem (heq ▸ mem_append_right l mem_cons_self)
  have hchain := h.chain
  rw [append_assoc, cons_append, ← cons_append] at hchain
  obtain ⟨-, hrest, hcross⟩ := isChain_append.1 hchain
  constructor
  · exact (hcross _ (getLast?_root_cons root l) a rfl).2 ha
  · exact ((List.isChain_cons.1 hrest).1 _ (head?_append_root root r)).1 ha

theorem Linked.isChain_next (h : Linked prev next root (l ++ a :: r)) :
    (a :: (r ++ [root])).IsChain fun x y => x ≠ root → next x = y := by
  have hchain := h.chain
  rw [append_assoc, cons_append, ← cons_append] at hchain
  exact hchain.right_of_append.imp fun _ _ hxy => hxy.1

theorem Linked.isChain_prev (h : Linked prev next root (l ++ a :: r)) :
    (a :: (l.reverse ++ [root])).IsChain fun x y => x ≠ root → prev x = y := by
  have hchain := h.chain
  have hsplit : root :: (l ++ a :: r ++ [root]) = (root :: l ++ [a]) ++ (r ++ [root]) := by simp
  rw [hsplit] at hchain
  have hback := List.isChain_reverse.2 (hchain.left_of_append.imp fun _ _ hxy => hxy.2)
  rwa [List.reverse_append, List.reverse_singleton, List.singleton_append, List.reverse_cons] at hback

theorem after_append_cons (root a : α) (l r : List α) : after root (l ++ a :: r) = l.reverse.getLast?.getD a := by
  rw [after, List.getLast?_reverse]
  cases l with
  | nil | cons b l => rfl

theorem before_append_cons (root a : α) (l r : List α) : before root (l ++ a :: r) = r.getLast?.getD a := by
  rw [before, List.getLast?_append_cons, List.getLast?_cons, Option.getD_some]

theorem Linked.remove [DecidableEq α] (h : Linked prev next root (l ++ a :: r))
    (hnext : ∀ b, b ≠ root → b ≠ a → next' b = if b = prev a then next a else next b)
    (hprev : ∀ b, b ≠ root → b ≠ a → prev' b = if b = next a then prev a else prev b) :
    Linked prev' next' root (l ++ r) := by
  obtain ⟨hpreva, hnexta⟩ := h.links
  have hmem : ∀ {b}, b ∈ l ++ r → b ≠ root ∧ b ≠ a := by
    intro b hb
    refine ⟨?_, ?_⟩
    · rintro rfl
      refine h.root_notMem ?_
      rcases mem_append.1 hb with hb | hb
      · exact mem_append_left _ hb
      · exact mem_append_right _ (mem_cons_of_mem a hb)
    · rintro rfl
      exact (nodup_cons.1 (nodup_middle.1 h.nodup)).1 hb
  refine h.splice [a] [] (nodup_cons.1 (nodup_middle.1 h.nodup)).2 List.not_mem_nil
    (fun b hb hne => ?_) (fun b hb hne => ?_) (List.isChain_pair.2 ⟨fun hne => ?_, fun hne => ?_⟩)
  · rw [hnext b (hmem hb).1 (hmem hb).2, if_neg (hpreva ▸ hne)]
  · rw [hprev b (hmem hb).1 (hmem hb).2, if_neg (hnexta ▸ hne)]
  · rw [hnext _ hne (hmem (mem_append_left r (before_mem hne))).2, if_pos hpreva.symm, hnexta]
  · rw [hprev _ hne (hmem (mem_append_right l (after_mem hne))).2, if_pos hnexta.symm, hpreva]

theorem Linked.insert [DecidableEq α] (h : Linked prev next root (l ++ r)) (ha : a ∉ l ++ r) (hroot : a ≠ root)
    (hnexta : next' a = after root r) (hpreva : prev' a = before root l)
    (hnext : ∀ b, b ≠ root → b ≠ a → next' b = if b = before root l then a else next b)
    (hprev : ∀ b, b ≠ root → b ≠ a → prev' b = if b = after root r then a else prev b) :
    Linked prev' next' root (l ++ a :: r) := by
  have hmem : ∀ {b}, b ∈ l ++ r → b ≠ root ∧ b ≠ a := fun hb =>
    ⟨fun heq => h.root_notMem (heq ▸ hb), fun heq => ha (heq ▸ hb)⟩
  refine h.splice [] [a] (nodup_middle.2 (nodup_cons.2 ⟨ha, h.nodup⟩))
    (fun hmem => hroot (mem_singleton.1 hmem).symm) (fun b hb hne => ?_) (fun b hb hne => ?_) ?_
  · rw [hnext b (hmem hb).1 (hmem hb).2, if_neg hne]
  · rw [hprev b (hmem hb).1 (hmem hb).2, if_neg hne]
  · refine isChain_cons_cons.2 ⟨⟨fun hne => ?_, fun _ => hpreva⟩,
      List.isChain_pair.2 ⟨fun _ => hnexta, fun hne => ?_⟩⟩
    · rw [hnext _ hne (hmem (mem_append_left r (before_mem hne))).2, if_pos rfl]
    · rw [hprev _ hne (hmem (mem_append_right l (after_mem hne))).2, if_pos rfl]

theorem eq_of_isChain_joined (hx : (a :: (xs ++ [root])).IsChain (Joined prev next root))
    (hy : (a :: (ys ++ [root])).IsChain (Joined prev next root)) (ha : a ≠ root) (hrootx : root ∉ xs)
    (hrooty : root ∉ ys) : xs = ys := by
  induction xs generalizing a ys with
  | nil =>
    cases ys with
    | nil => rfl
    | cons c ys =>
      have hroot : root = c :=
        ((isChain_cons_cons.1 hx).1.1 ha).symm.trans ((isChain_cons_cons.1 hy).1.1 ha)
      exact absurd (hroot ▸ mem_cons_self) hrooty
  | cons b xs ih =>
    cases ys with
    | nil =>
      have hroot : b = root :=
        ((isChain_cons_cons.1 hx).1.1 ha).symm.trans ((isChain_cons_cons.1 hy).1.1 ha)
      exact absurd (hroot ▸ mem_cons_self) hrootx
    | cons c ys =>
      obtain ⟨hab, hx⟩ := isChain_cons_cons.1 hx
      obtain ⟨hac, hy⟩ := isChain_cons_cons.1 hy
      have hbc : b = c := (hab.1 ha).symm.trans (hac.1 ha)
      subst hbc
      have hb : b ≠ root := fun heq => hrootx (heq ▸ mem_cons_self)
      rw [ih hx hy hb (fun hmem => hrootx (mem_cons_of_mem b hmem)) fun hmem =>
        hrooty (mem_cons_of_mem b hmem)]

theorem Linked.unique (hx : Linked prev next root xs) (hy : Linked prev next root ys) (hmem : ∀ a, a ∈ xs ↔ a ∈ ys) :
    xs = ys := by
  cases xs with
  | nil => exact (List.eq_nil_iff_forall_not_mem.2 fun a ha => List.not_mem_nil ((hmem a).2 ha)).symm
  | cons a xs =>
    have ha : a ≠ root := fun heq => hx.root_notMem (heq ▸ mem_cons_self)
    obtain ⟨l, r, hys⟩ := List.mem_iff_append.1 ((hmem a).1 mem_cons_self)
    have hprev : before root l = root := by
      rw [hys] at hy
      exact hy.links.1.symm.trans (hx.links (l := [])).1
    have hl : l = [] := by
      rw [hys] at hy
      exact eq_nil_of_before_eq_root (fun hroot => hy.root_notMem (mem_append_left _ hroot)) hprev
    subst hl
    rw [hys, nil_append] at hy ⊢
    have hrest := eq_of_isChain_joined (isChain_cons_cons.1 hx.chain).2 (isChain_cons_cons.1 hy.chain).2 ha
      (fun hmem => hx.root_notMem (mem_cons_of_mem a hmem)) fun hmem =>
        hy.root_notMem (mem_cons_of_mem a hmem)
    rw [hrest]

end Lib
