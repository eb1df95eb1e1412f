import Mathlib.Data.List.Basic
import Mathlib.Data.List.Induction

/-!
# Machines that are fed a stream in buffers

A machine works on the bytes of a buffer in turns of a loop: a turn takes some of the bytes and
makes calls, or the machine has stopped.  `loop` is the loop with a bound on its turns, and
`Exits` says that it is left, and how.  `feed` gives the machine one buffer after the other.

`Cuttable` is what a machine must satisfy for the buffers not to matter: a turn on the first bytes
of a buffer is a turn on the buffer, or it takes all of them and the next turn takes up where it
ended.  Calls are compared through what is `seen` of each, which a long piece of data shares with
its parts.  Then a stream is read in one way however it is cut (`feed_flatten`).
-/

namespace Lib

universe u v w x

variable {σ : Type u} {α : Type v} {τ : Type w} {υ : Type x}

/-- What a turn leaves behind: the state, the bytes not taken, and the calls it made. -/
@[ext]
structure Turn (σ : Type u) (α : Type v) (τ : Type w) where
  state : σ
  rest : List α
  calls : List τ

def Turn.after (calls : List τ) (t : Turn σ α τ) : Turn σ α τ := { t with calls := calls ++ t.calls }

def loop (turn : σ → List α → Option (Turn σ α τ)) : ℕ → σ → List α → Turn σ α τ
  | 0, s, xs => ⟨s, xs, []⟩
  | _ + 1, s, [] => ⟨s, [], []⟩
  | n + 1, s, x :: xs =>
    match turn s (x :: xs) with
    | none => ⟨s, x :: xs, []⟩
    | some t => (loop turn n t.state t.rest).after t.calls

def feed (run : σ → List α → Turn σ α τ) : σ → List (List α) → Turn σ α τ
  | s, [] => ⟨s, [], []⟩
  | s, buf :: bufs =>
    let t := run s buf
    let r := feed run t.state bufs
    ⟨r.state, t.rest ++ r.rest, t.calls ++ r.calls⟩

inductive Exits (turn : σ → List α → Option (Turn σ α τ)) : σ → List α → Turn σ α τ → Prop
  | done {s : σ} : Exits turn s [] ⟨s, [], []⟩
  | stop {s : σ} {xs : List α} : xs ≠ [] → turn s xs = none → Exits turn s xs ⟨s, xs, []⟩
  | turn {s : σ} {xs : List α} {t r : Turn σ α τ} : xs ≠ [] → turn s xs = some t →
      Exits turn t.state t.rest r → Exits turn s xs (r.after t.calls)

def Returns (turn : σ → List α → Option (Turn σ α τ)) (run : σ → List α → Turn σ α τ) :
    σ → List (List α) → Prop
  | _, [] => True
  | s, buf :: bufs => Exits turn s buf (run s buf) ∧ Returns turn run (run s buf).state bufs

section Loop

variable {turn : σ → List α → Option (Turn σ α τ)} {I : σ → Prop} {ok : τ → Prop}
  {rank : σ → List α → ℕ} {s : σ} {xs : List α} {t r : Turn σ α τ} {n : ℕ}

/-- A measure of the turns that are left. -/
structure Ranked (turn : σ → List α → Option (Turn σ α τ)) (I : σ → Prop) (ok : τ → Prop)
    (rank : σ → List α → ℕ) : Prop where
  keeps : ∀ {s xs t}, I s → turn s xs = some t → I t.state
  lt : ∀ {s xs t}, I s → xs ≠ [] → turn s xs = some t → (∀ c ∈ t.calls, ok c) → rank t.state t.rest < rank s xs

theorem loop_of_some (h : turn s xs = some t) (hxs : xs ≠ []) :
    loop turn (n + 1) s xs = (loop turn n t.state t.rest).after t.calls := by
  cases xs with
  | nil => exact absurd rfl hxs
  | cons x xs => rw [loop, h]

theorem loop_of_none (h : turn s xs = none) : loop turn n s xs = ⟨s, xs, []⟩ := by
  cases n with
  | zero => rfl
  | succ n =>
    cases xs with
    | nil => rfl
    | cons x xs => rw [loop, h]

theorem loop_nil : loop turn n s [] = ⟨s, [], []⟩ := by
  cases n <;> rfl

theorem Exits.keeps (hr : Exits turn s xs r)
    (keeps : ∀ {s xs t}, I s → turn s xs = some t → I t.state) (hI : I s) : I r.state := by
  induction hr with
  | done | stop => exact hI
  | turn _ ht _ ih => exact ih (keeps hI ht)

/-- **The loop is left** before its bound, if its calls are such that the measure falls. -/
theorem Ranked.exits (h : Ranked turn I ok rank) (hI : I s) (hn : rank s xs < n)
    (hok : ∀ c ∈ (loop turn n s xs).calls, ok c) : Exits turn s xs (loop turn n s xs) := by
  induction n generalizing s xs with
  | zero => omega
  | succ n ih =>
    by_cases hxs : xs = []
    · subst hxs
      exact .done
    · cases ht : turn s xs with
      | none =>
        rw [loop_of_none ht]
        exact .stop hxs ht
      | some t =>
        rw [loop_of_some ht hxs] at hok ⊢
        have hlt := h.lt hI hxs ht fun c hc => hok c (List.mem_append_left _ hc)
        exact .turn hxs ht (ih (h.keeps hI ht) (by omega) fun c hc =>
          hok c (List.mem_append_right _ hc))

theorem Ranked.loop_eq (h : Ranked turn I ok rank) (hr : Exits turn s xs r) (hI : I s)
    (hn : rank s xs < n) (hok : ∀ c ∈ r.calls, ok c) : loop turn n s xs = r := by
  induction hr generalizing n with
  | done => exact loop_nil
  | stop hxs ht => exact loop_of_none ht
  | @turn s xs t r hxs ht hr ih =>
    have hlt := h.lt hI hxs ht fun c hc => hok c (List.mem_append_left _ hc)
    obtain ⟨n, rfl⟩ : ∃ m, n = m + 1 := ⟨n - 1, by omega⟩
    rw [loop_of_some ht hxs, ih (h.keeps hI ht) (by omega) fun c hc =>
      hok c (List.mem_append_right _ hc)]

end Loop

section Cut

variable {turn : σ → List α → Option (Turn σ α τ)} {I : σ → Prop} {ok : τ → Prop}
  {seen : τ → List υ} {rank : σ → List α → ℕ} {s : σ} {xs ys : List α} {r : Turn σ α τ}

/-- The turn `t` on all bytes is a turn on those before a cut, or this takes them all and the next
turn takes up where it ended. -/
def CutAt (turn : σ → List α → Option (Turn σ α τ)) (ok : τ → Prop) (seen : τ → List υ) (s : σ)
    (xs ys : List α) (t : Turn σ α τ) : Prop :=
  ∃ t₁, turn s xs = some t₁ ∧ (∀ c ∈ t₁.calls, ok c) ∧ (t = { t₁ with rest := t₁.rest ++ ys } ∨
      t₁.rest = [] ∧ ∃ t₂, turn t₁.state ys = some t₂ ∧ (∀ c ∈ t₂.calls, ok c) ∧ t₂.state = t.state ∧ t₂.rest = t.rest ∧
        t.calls.flatMap seen = (t₁.calls ++ t₂.calls).flatMap seen)

/-- Turns may be cut, and a machine that has stopped takes nothing. -/
structure Cuttable (turn : σ → List α → Option (Turn σ α τ)) (I : σ → Prop) (ok : τ → Prop)
    (seen : τ → List υ) : Prop where
  stop : ∀ {s xs ys}, turn s xs = none → turn s ys = none
  cut : ∀ {s xs ys t}, I s → xs ≠ [] → ys ≠ [] → turn s (xs ++ ys) = some t →
    (∀ c ∈ t.calls, ok c) → CutAt turn ok seen s xs ys t

/-- The loop on all bytes is the loop on those before a cut, and then on those behind it. -/
theorem Cuttable.exits (h : Cuttable turn I ok seen)
    (keeps : ∀ {s xs t}, I s → turn s xs = some t → I t.state) {zs : List α}
    (hr : Exits turn s zs r) (hI : I s) (hok : ∀ c ∈ r.calls, ok c) (hzs : zs = xs ++ ys) :
    ∃ r₁ r₂, Exits turn s xs r₁ ∧ Exits turn r₁.state ys r₂ ∧
      (∀ c ∈ r₁.calls, ok c) ∧ (∀ c ∈ r₂.calls, ok c) ∧ I r₁.state ∧ r₂.state = r.state ∧
      r₁.rest ++ r₂.rest = r.rest ∧
      r.calls.flatMap seen = (r₁.calls ++ r₂.calls).flatMap seen := by
  induction hr generalizing xs with
  | @done s =>
    obtain ⟨rfl, rfl⟩ := List.append_eq_nil_iff.1 hzs.symm
    exact ⟨_, _, .done, .done, hok, hok, hI, rfl, rfl, rfl⟩
  | @stop s zs hne ht =>
    -- a machine that has stopped takes nothing of either buffer
    have hstop : ∀ ws : List α, Exits turn s ws ⟨s, ws, []⟩ := by
      intro ws
      by_cases hws : ws = []
      · subst hws
        exact .done
      · exact .stop hws (h.stop ht)
    exact ⟨_, _, hstop xs, hstop ys, hok, hok, hI, rfl, hzs.symm, rfl⟩
  | @turn s zs t r hne ht hr ih =>
    have hokt : ∀ c ∈ t.calls, ok c := fun c hc => hok c (List.mem_append_left _ hc)
    have hokr : ∀ c ∈ r.calls, ok c := fun c hc => hok c (List.mem_append_right _ hc)
    by_cases hxs : xs = []
    · subst hxs
      obtain rfl : zs = ys := hzs
      exact ⟨_, _, .done, .turn hne ht hr, by simp, hok, hI, rfl, rfl, rfl⟩
    by_cases hys : ys = []
    · subst hys
      obtain rfl : zs = xs := hzs.trans (List.append_nil xs)
      refine ⟨_, _, .turn hne ht hr, .done, hok, by simp, ?_, rfl, List.append_nil _, ?_⟩
      · exact hr.keeps keeps (keeps hI ht)
      · rw [List.append_nil]
    subst hzs
    obtain ⟨t₁, ht₁, hok₁, rfl | ⟨hrest, t₂, ht₂, hok₂, hstate, hrest₂, hseen⟩⟩ :=
      h.cut hI hxs hys ht hokt
    · obtain ⟨r₁, r₂, hr₁, hr₂, hokr₁, hokr₂, hI₁, hst, hre, hse⟩ :=
        ih (keeps hI ht) hokr rfl
      refine ⟨_, r₂, .turn hxs ht₁ hr₁, hr₂, ?_, hokr₂, hI₁, hst, hre, ?_⟩
      · intro c hc
        exact (List.mem_append.1 hc).elim (hok₁ c) (hokr₁ c)
      · simp only [Turn.after, List.flatMap_append] at hse ⊢
        rw [hse, List.append_assoc]
    · have hI₁ : I t₁.state := keeps hI ht₁
      refine ⟨⟨t₁.state, [], t₁.calls⟩, r.after t₂.calls, ?_, ?_, hok₁, ?_, hI₁, rfl, rfl, ?_⟩
      · have hdone : Exits turn t₁.state t₁.rest ⟨t₁.state, [], []⟩ := by
          rw [hrest]
          exact .done
        have hturn := Exits.turn hxs ht₁ hdone
        rwa [Turn.after, List.append_nil] at hturn
      · exact .turn hys ht₂ (hstate ▸ hrest₂ ▸ hr)
      · intro c hc
        exact (List.mem_append.1 hc).elim (hok₂ c) (hokr c)
      · simp only [Turn.after, List.flatMap_append] at hseen ⊢
        rw [hseen, List.append_assoc]

/-- **However a stream is cut into buffers**, the loop is left on each, the machine ends in the same
state, leaves the same bytes, and the same is seen of its calls. -/
theorem feed_flatten (bound : σ → List α → ℕ) (h : Cuttable turn I ok seen)
    (hrank : Ranked turn I ok rank) (hbound : ∀ s xs, rank s xs < bound s xs) {bufs : List (List α)} (hI : I s)
    (hok : ∀ c ∈ (loop turn (bound s bufs.flatten) s bufs.flatten).calls, ok c) :
    let whole := loop turn (bound s bufs.flatten) s bufs.flatten
    let run := fun s xs => loop turn (bound s xs) s xs
    let parts := feed run s bufs
    Returns turn run s bufs ∧ parts.state = whole.state ∧ parts.rest = whole.rest ∧
      parts.calls.flatMap seen = whole.calls.flatMap seen := by
  have hr := hrank.exits hI (hbound _ _) hok
  revert hok hr
  generalize loop turn (bound s bufs.flatten) s bufs.flatten = r
  intro hok hr
  induction bufs generalizing s r with
  | nil =>
    cases hr with
    | done => exact ⟨trivial, rfl, rfl, rfl⟩
    | stop hne _ | turn hne _ _ => exact absurd rfl hne
  | cons buf bufs ih =>
    obtain ⟨r₁, r₂, hr₁, hr₂, hok₁, hok₂, hI₁, hst, hre, hse⟩ :=
      h.exits hrank.keeps hr hI hok List.flatten_cons
    obtain ⟨hret, hst', hre', hse'⟩ := ih hI₁ r₂ hok₂ hr₂
    have hloop : loop turn (bound s buf) s buf = r₁ := hrank.loop_eq hr₁ hI (hbound _ _) hok₁
    simp only [feed, Returns, hloop]
    refine ⟨⟨hr₁, hret⟩, hst'.trans hst, ?_, ?_⟩
    · rw [hre', hre]
    · rw [List.flatMap_append, hse', hse, List.flatMap_append]

end Cut

end Lib
