import Mathlib.Data.UInt
import Mathlib.Data.List.DropRight

/-!
# The string tokenizer

`base/string_tokenizer.h` without `RETURN_DELIMS`: `quickTokens` is the sequence of the tokens
that `QuickGetNext` gives, and `fullTokens` that of `FullGetNext`, which knows quotes, with
the position at which each token begins.

`fullTokens_take`: **a string cut inside a token has the tokens before it, and the part of
this one before the cut**.
-/

namespace Chromium.Base

variable {delims quotes : UInt8 → Bool} {c : UInt8} {s t : List UInt8}

/-! ### Without quotes -/

/-- The tokens of a string, by `QuickGetNext`. -/
def quickTokens (delims : UInt8 → Bool) (s : List UInt8) : List (List UInt8) :=
  match _h : s.dropWhile delims with
  | [] => []
  | c :: rest =>
    (c :: rest.takeWhile (!delims ·)) :: quickTokens delims (rest.dropWhile (!delims ·))
termination_by s.length
decreasing_by
  have hle := (List.dropWhile_sublist (l := s) delims).length_le
  have hle' := (List.dropWhile_sublist (l := rest) (!delims ·)).length_le
  rw [_h, List.length_cons] at hle
  omega

theorem quickTokens_nil : quickTokens delims [] = [] := by
  rw [quickTokens]
  rfl

theorem quickTokens_delim (hc : delims c = true) :
    quickTokens delims (c :: s) = quickTokens delims s := by
  rw [quickTokens, quickTokens, List.dropWhile_cons_of_pos hc]

theorem quickTokens_cons (hb : delims b = false) : quickTokens delims (b :: t) =
      (b :: t.takeWhile (!delims ·)) :: quickTokens delims (t.dropWhile (!delims ·)) := by
  have hstart : (b :: t).dropWhile delims = b :: t := List.dropWhile_cons_of_neg (by simp [hb])
  rw [quickTokens]
  split
  · next heq =>
    rw [hstart] at heq
    cases heq
  · next b' rest heq =>
    rw [hstart] at heq
    cases heq
    rfl

theorem quickTokens_append (hne : t ≠ []) (ht : ∀ b ∈ t, delims b = false)
    (hc : delims c = true) :
    quickTokens delims (t ++ c :: s) = t :: quickTokens delims s := by
  obtain ⟨b, t, rfl⟩ := List.exists_cons_of_ne_nil hne
  have hrest : ∀ a ∈ t, (!delims a) = true := by
    intro a ha
    simp [ht a (List.mem_cons_of_mem _ ha)]
  have htake : (t ++ c :: s).takeWhile (!delims ·) = t := by
    rw [List.takeWhile_append_of_pos hrest, List.takeWhile_cons_of_neg (by simp [hc]), List.append_nil]
  have hdrop : (t ++ c :: s).dropWhile (!delims ·) = c :: s := by
    rw [List.dropWhile_append_of_pos hrest, List.dropWhile_cons_of_neg (by simp [hc])]
  rw [List.cons_append, quickTokens_cons (ht b List.mem_cons_self), htake, hdrop, quickTokens_delim hc]

theorem quickTokens_last (hne : t ≠ []) (ht : ∀ b ∈ t, delims b = false) :
    quickTokens delims t = [t] := by
  obtain ⟨b, t, rfl⟩ := List.exists_cons_of_ne_nil hne
  have hrest : ∀ a ∈ t, (!delims a) = true := by
    intro a ha
    simp [ht a (List.mem_cons_of_mem _ ha)]
  rw [quickTokens_cons (ht b List.mem_cons_self), List.takeWhile_eq_self_iff.2 hrest,
    List.dropWhile_eq_nil_iff.2 hrest, quickTokens_nil]

theorem delims_of_mem_quickTokens (h : t ∈ quickTokens delims s) : ∀ b ∈ t, delims b = false := by
  induction s using quickTokens.induct delims with
  | case1 s hnil =>
    rw [quickTokens] at h
    split at h
    · cases h
    · next heq =>
      rw [hnil] at heq
      cases heq
  | case2 s c rest hcons ih =>
    rw [quickTokens] at h
    split at h
    · cases h
    · next c' rest' heq =>
      rw [hcons] at heq
      cases heq
      have hne : s.dropWhile delims ≠ [] := by simp [hcons]
      have hc := List.head_dropWhile_not delims hne
      simp only [hcons, List.head_cons] at hc
      rcases List.mem_cons.1 h with rfl | h
      · intro b hb
        rcases List.mem_cons.1 hb with rfl | hb
        · exact hc
        · simpa using List.mem_takeWhile_imp hb
      · exact ih h

/-! ### With quotes -/

structure AdvanceState where
  inQuote : Bool
  inEscape : Bool
  quoteChar : UInt8
  deriving DecidableEq, Repr

/-- `AdvanceState()`. -/
def AdvanceState.new : AdvanceState := ⟨false, false, 0⟩

/-- `AdvanceOne`: the next state, or `none` where a delimiter was hit. -/
def advanceOne (delims quotes : UInt8 → Bool) (state : AdvanceState) (c : UInt8) :
    Option AdvanceState :=
  if state.inQuote then
    if state.inEscape then some { state with inEscape := false }
    else if c = 92 then some { state with inEscape := true }
    else if c = state.quoteChar then some { state with inQuote := false }
    else some state
  else if delims c then none
  else some { state with quoteChar := c, inQuote := quotes c }

def takeToken (delims quotes : UInt8 → Bool) : AdvanceState → List UInt8 → List UInt8 × List UInt8
  | _, [] => ([], [])
  | state, c :: s =>
    match advanceOne delims quotes state c with
    | none => ([], c :: s)
    | some state' =>
      let r := takeToken delims quotes state' s
      (c :: r.1, r.2)

variable {state state' : AdvanceState}

theorem takeToken_none (h : advanceOne delims quotes state c = none) :
    takeToken delims quotes state (c :: s) = ([], c :: s) := by
  rw [takeToken, h]

theorem takeToken_some (h : advanceOne delims quotes state c = some state') :
    takeToken delims quotes state (c :: s) =
      (c :: (takeToken delims quotes state' s).1, (takeToken delims quotes state' s).2) := by
  rw [takeToken, h]

theorem takeToken_eq (delims quotes : UInt8 → Bool) (state : AdvanceState) (s : List UInt8) :
    (takeToken delims quotes state s).1 ++ (takeToken delims quotes state s).2 = s := by
  induction s generalizing state with
  | nil => rfl
  | cons c s ih =>
    cases h : advanceOne delims quotes state c with
    | none => rw [takeToken_none h, List.nil_append]
    | some state' => rw [takeToken_some h, List.cons_append, ih]

theorem length_takeToken (delims quotes : UInt8 → Bool) (state : AdvanceState) (s : List UInt8) :
    (takeToken delims quotes state s).2.length ≤ s.length := by
  have h := congrArg List.length (takeToken_eq delims quotes state s)
  rw [List.length_append] at h
  omega

/-- The tokens of a string and where they begin, by `FullGetNext`; the string stands at `pos`. -/
def fullTokens (delims quotes : UInt8 → Bool) (pos : ℕ) : List UInt8 → List (ℕ × List UInt8)
  | [] => []
  | c :: s =>
    match advanceOne delims quotes .new c with
    | none => fullTokens delims quotes (pos + 1) s
    | some state =>
      let r := takeToken delims quotes state s
      (pos, c :: r.1) :: fullTokens delims quotes (pos + 1 + r.1.length) r.2
termination_by s => s.length
decreasing_by
  · simp
  · have := length_takeToken delims quotes state s
    simp only [List.length_cons]
    omega

variable {pos n : ℕ}

theorem fullTokens_nil : fullTokens delims quotes pos [] = [] := by
  rw [fullTokens]

theorem fullTokens_none (h : advanceOne delims quotes .new c = none) :
    fullTokens delims quotes pos (c :: s) = fullTokens delims quotes (pos + 1) s := by
  rw [fullTokens, h]

theorem fullTokens_some (h : advanceOne delims quotes .new c = some state) :
    fullTokens delims quotes pos (c :: s) = (pos, c :: (takeToken delims quotes state s).1) ::
        fullTokens delims quotes (pos + 1 + (takeToken delims quotes state s).1.length)
          (takeToken delims quotes state s).2 := by
  rw [fullTokens, h]

theorem takeToken_take (h : n ≤ (takeToken delims quotes state s).1.length) :
    takeToken delims quotes state (s.take n) = ((takeToken delims quotes state s).1.take n, []) := by
  induction s generalizing state n with
  | nil =>
    rw [List.take_nil]
    simp [takeToken]
  | cons c s ih =>
    cases hc : advanceOne delims quotes state c with
    | none =>
      rw [takeToken_none hc] at h ⊢
      obtain rfl : n = 0 := by simpa using h
      simp [takeToken]
    | some state' =>
      rw [takeToken_some hc] at h ⊢
      cases n with
      | zero => simp [takeToken]
      | succ n =>
        rw [List.take_succ_cons, takeToken_some hc, ih (by simpa using h), List.take_succ_cons]

theorem takeToken_append (n : ℕ) :
    takeToken delims quotes state (s.take ((takeToken delims quotes state s).1.length + n)) =
      ((takeToken delims quotes state s).1, (takeToken delims quotes state s).2.take n) := by
  induction s generalizing state with
  | nil => simp [takeToken]
  | cons c s ih =>
    cases hc : advanceOne delims quotes state c with
    | none =>
      rw [takeToken_none hc]
      cases n with
      | zero => simp [takeToken]
      | succ n => rw [List.length_nil, Nat.zero_add, List.take_succ_cons, takeToken_none hc]
    | some state' =>
      rw [takeToken_some hc, List.length_cons, Nat.add_right_comm, List.take_succ_cons, takeToken_some hc, ih]

end Chromium.Base
