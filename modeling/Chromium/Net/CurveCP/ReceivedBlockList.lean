import Chromium.Lib.MachineInt
import Chromium.Lib.TransSys
import Mathlib.Algebra.Order.BigOperators.Group.List
import Mathlib.Algebra.Order.Group.Nat

/-!
# The blocks that are received

`net/curvecp/received_block_list.cc`.  The blocks are in the order of their positions, and bytes are
read as far as there is no hole.  In `receiving_run` the blocks of a stream come in any order, some
again and some never; none may be empty, since an empty block stands for the one behind it, at the
same position.
-/

namespace Chromium.Net.CurveCP

open Lib
open List (map_cons mem_cons mem_cons_self pairwise_cons)

/-- `ReceivedBlockList::Block`: the bytes, and how many of them are consumed. -/
structure ReceivedBlock where
  position : ℤ
  data : List UInt8
  used : ℕ
  deriving DecidableEq

structure ReceivedBlockList where
  currentPosition : ℤ
  bytesReceived : ℤ
  list : List ReceivedBlock
  deriving DecidableEq

namespace ReceivedBlockList

/-- `ReceivedBlockList()`. -/
def new : ReceivedBlockList := ⟨0, 0, []⟩

variable (l : ReceivedBlockList)

/-- The loop of `bytes_available`. -/
def availableLoop (currentPosition : ℤ) : List ReceivedBlock → ℤ → ℤ
  | [], bytesAvailable => bytesAvailable
  | block :: list, bytesAvailable =>
    if block.position ≠ currentPosition + bytesAvailable then bytesAvailable
    else availableLoop currentPosition list (bytesAvailable + block.data.length)

def bytesAvailable : ℤ := availableLoop l.currentPosition l.list 0

def computeBytesReceived : ReceivedBlockList := { l with bytesReceived := l.currentPosition + l.bytesAvailable }

/-- The loop of `AddBlock`, which puts the block in its place; a duplicate is left out. -/
def insertLoop (position : ℤ) (data : List UInt8) : List ReceivedBlock → Option (List ReceivedBlock)
  | [] => some [⟨position, data, 0⟩]
  | block :: list =>
    if block.position = position then none
    else if position < block.position then some (⟨position, data, 0⟩ :: block :: list)
    else (insertLoop position data list).map (block :: ·)

def addBlock (position : ℤ) (data : List UInt8) : ReceivedBlockList :=
  if position < l.bytesReceived then l
  else
    match insertLoop position data l.list with
    | none => l
    | some list => computeBytesReceived { l with list }

/-- The loop of `ReadBytes`: the bytes, and what is left. -/
def readLoop : List ReceivedBlock → ℕ → ℤ → List UInt8 × List ReceivedBlock × ℤ
  | [], _, currentPosition => ([], [], currentPosition)
  | block :: list, size, currentPosition =>
    if size = 0 ∨ block.position ≠ currentPosition then ([], block :: list, currentPosition)
    else
      let bytes := min size (block.data.length - block.used)
      let taken := (block.data.drop block.used).take bytes
      if block.used + bytes = block.data.length then
        let (more, list, currentPosition) := readLoop list (size - bytes) (currentPosition + block.data.length)
        (taken ++ more, list, currentPosition)
      else (taken, { block with used := block.used + bytes } :: list, currentPosition)

def readBytes (size : ℕ) : List UInt8 × ReceivedBlockList :=
  let (bytes, list, currentPosition) := readLoop l.list size l.currentPosition
  (bytes, { l with list, currentPosition })

/-- `bytes_received()`, which is an `int`. -/
def bytesReceivedInt : ℤ := toInt32 l.bytesReceived

inductive Call
  | addBlock (k : ℕ)
  | readBytes (size : ℕ)

variable (S : ℕ → UInt8) (cut : ℕ → ℕ)

def piece (start size : ℕ) : List UInt8 := (List.range' start size).map S

/-- The `k`-th block of the stream `S`, which is from `cut k` to `cut (k + 1)`. -/
def block (k : ℕ) : List UInt8 := piece S (cut k) (cut (k + 1) - cut k)

/-- The list, and all that was read. -/
def receiving : TransSys (ReceivedBlockList × List UInt8) Call where
  init s := s = (new, [])
  step s call s' :=
    match call with
    | .addBlock k => s' = (s.1.addBlock (cut k) (block S cut k), s.2)
    | .readBytes size => s' = ((s.1.readBytes size).2, s.2 ++ (s.1.readBytes size).1)

/-- The first block that is missing. -/
structure First (D : ℕ → Prop) (m : ℕ) : Prop where
  below : ∀ k < m, D k
  missing : ¬ D m

/-- The blocks `ks` are in the list; the `n`-th is read next, from its byte `u` on. -/
structure Held (D : ℕ → Prop) (n u : ℕ) (ks : List ℕ) : Prop where
  sorted : ks.Pairwise (· < ·)
  mem_iff : ∀ k, k ∈ ks ↔ n ≤ k ∧ D k
  below : ∀ k < n, D k
  used : u = 0 ∨ D n ∧ cut n + u < cut (n + 1)

def entry (n u k : ℕ) : ReceivedBlock := ⟨cut k, block S cut k, if k = n then u else 0⟩

variable {S cut} {D : ℕ → Prop} {n m u k : ℕ} {ks : List ℕ}

theorem piece_append (a b c : ℕ) : piece S a b ++ piece S (a + b) c = piece S a (b + c) := by
  rw [piece, piece, ← List.map_append, List.range'_append_1]
  rfl

theorem take_drop_piece (a b c d : ℕ) (h : d ≤ b - c) : ((piece S a b).drop c).take d = piece S (a + c) d := by
  rw [piece, ← List.map_drop, ← List.map_take, List.drop_range', Nat.mul_one, List.take_range'_of_length_ge h]
  rfl

theorem Held.le (h : Held cut D n u ks) (hm : First D m) : n ≤ m :=
  not_lt.1 fun hlt => hm.missing (h.below m hlt)

theorem Held.eq (h : Held cut D n u ks) (hm : First D m) (hD : ¬ D n) : n = m :=
  le_antisymm (h.le hm) (not_lt.1 fun hlt => hD (hm.below n hlt))

theorem Held.le_cut (hcut : StrictMono cut) (hm : First D m) (h : Held cut D n u ks) : cut n + u ≤ cut m := by
  rcases h.used with rfl | ⟨hD, hu⟩
  · exact hcut.monotone (h.le hm)
  · exact hu.le.trans (hcut.monotone (lt_of_le_of_ne (h.le hm) fun heq => hm.missing (heq ▸ hD)))

theorem Held.head_eq (h : Held cut D n u (k :: ks)) (hD : D n) : k = n := by
  rcases mem_cons.1 ((h.mem_iff n).2 ⟨le_rfl, hD⟩) with rfl | hmem
  · rfl
  · exact absurd ((pairwise_cons.1 h.sorted).1 n hmem) (not_lt.2 ((h.mem_iff k).1 mem_cons_self).1)

theorem Held.tail (h : Held cut D n u (n :: ks)) : Held cut D (n + 1) 0 ks := by
  obtain ⟨hlt, hsorted⟩ := pairwise_cons.1 h.sorted
  have hD : D n := ((h.mem_iff n).1 mem_cons_self).2
  refine ⟨hsorted, fun k => ⟨fun hk => ⟨hlt k hk, ?_⟩, fun ⟨hle, hk⟩ => ?_⟩, fun k hk => ?_, .inl rfl⟩
  · exact ((h.mem_iff k).1 (List.mem_cons_of_mem _ hk)).2
  · exact (mem_cons.1 ((h.mem_iff k).2 ⟨by omega, hk⟩)).resolve_left (by omega)
  · rcases Nat.lt_succ_iff_lt_or_eq.1 hk with hk | rfl
    · exact h.below k hk
    · exact hD

theorem map_entry_tail (h : Held cut D n u (n :: ks)) {n' v : ℕ} (hn' : n' = n ∨ v = 0) :
    ks.map (entry S cut n u) = ks.map (entry S cut n' v) := by
  refine List.map_congr_left fun k hk => ?_
  have hlt := (pairwise_cons.1 h.sorted).1 k hk
  unfold entry
  rw [if_neg (by omega)]
  split_ifs with heq
  · rw [hn'.resolve_left (by omega)]
  · rfl

/-- **A read** takes the bytes that come next, as far as there is no hole. -/
theorem Held.readLoop (hcut : StrictMono cut) (hm : First D m) (h : Held cut D n u ks) (size : ℕ) :
    ∃ n' u' ks' c, Held cut D n' u' ks' ∧ c = min size (cut m - (cut n + u)) ∧ cut n' + u' = cut n + u + c ∧
      readLoop (ks.map (entry S cut n u)) size (cut n) =
        (piece S (cut n + u) c, ks'.map (entry S cut n' u'), (cut n' : ℤ)) := by
  have hstop (n u ks size) (h : Held cut D n u ks) (hnone : size = 0 ∨ ¬ D n) :
      0 = min size (cut m - (cut n + u)) := by
    rcases hnone with rfl | hD
    · exact (Nat.zero_min _).symm
    · rw [h.eq hm hD]
      omega
  induction ks generalizing n u size with
  | nil =>
    have hD : ¬ D n := fun hD => nomatch (h.mem_iff n).2 ⟨le_rfl, hD⟩
    exact ⟨n, u, [], 0, h, hstop n u [] size h (.inr hD), rfl, rfl⟩
  | cons k ks ih =>
    rw [map_cons, ReceivedBlockList.readLoop]
    by_cases hnone : size = 0 ∨ (entry S cut n u k).position ≠ cut n
    · rw [if_pos hnone]
      exact ⟨n, u, k :: ks, 0, h, hstop n u _ size h (hnone.imp_right fun hne hD => hne (h.head_eq hD ▸ rfl)), rfl, rfl⟩
    · obtain ⟨hsize, hposition⟩ := not_or.1 hnone
      obtain rfl : k = n := hcut.injective (Int.ofNat_inj.1 (not_not.1 hposition))
      have hD := ((h.mem_iff k).1 mem_cons_self).2
      have hm' : cut (k + 1) ≤ cut m := hcut.monotone (h.tail.le hm)
      have hlt := hcut (Nat.lt_add_one k)
      have hu : cut k + u < cut (k + 1) := h.used.elim (fun hu => by omega) And.right
      have hused : (entry S cut k u k).used = u := if_pos rfl
      have hdata : (entry S cut k u k).data = piece S (cut k) (cut (k + 1) - cut k) := rfl
      have hlength : (piece S (cut k) (cut (k + 1) - cut k)).length = cut (k + 1) - cut k := by simp [piece]
      rw [if_neg hnone, hused, hdata, hlength]
      dsimp only
      rw [take_drop_piece _ _ _ _ (Nat.min_le_right ..)]
      split_ifs with hall
      · obtain ⟨n', u', ks', c, hheld, hc, hpos, hloop⟩ := ih h.tail (size - min size (cut (k + 1) - cut k - u))
        have hnext : ((cut k : ℤ) + ((cut (k + 1) - cut k : ℕ) : ℤ)) = cut (k + 1) := by omega
        have hnext' : cut k + u + min size (cut (k + 1) - cut k - u) = cut (k + 1) + 0 := by omega
        refine ⟨n', u', ks', min size (cut (k + 1) - cut k - u) + c, hheld, by omega, by omega, ?_⟩
        rw [map_entry_tail h (.inr rfl), hnext, hloop]
        dsimp only
        rw [← hnext', piece_append]
      · refine ⟨k, u + size, k :: ks, size, ⟨h.sorted, h.mem_iff, h.below, .inr ⟨hD, by omega⟩⟩, by omega, by omega, ?_⟩
        rw [Nat.min_eq_left (by omega), map_cons, map_entry_tail h (v := u + size) (.inl rfl)]
        simp [entry, block]

theorem Held.available (hcut : StrictMono cut) (hm : First D m) (h : Held cut D n u ks) (n' u' : ℕ) (position : ℤ) :
    availableLoop position (ks.map (entry S cut n' u')) (cut n - position) = cut m - position := by
  induction ks generalizing n u with
  | nil =>
    rw [h.eq hm fun hD => (nomatch (h.mem_iff n).2 ⟨le_rfl, hD⟩)]
    rfl
  | cons k ks ih =>
    rw [map_cons, availableLoop, add_sub_cancel]
    have hlength : (entry S cut n' u' k).data.length = cut (k + 1) - cut k := by simp [entry, block, piece]
    by_cases hD : D n
    · obtain rfl := h.head_eq hD
      have hlt := hcut (Nat.lt_add_one k)
      rw [if_neg (fun hne => hne rfl), hlength, ← ih h.tail]
      congr 1
      omega
    · rw [if_pos fun heq => ?_, h.eq hm hD]
      exact hD (hcut.injective (Int.ofNat_inj.1 heq) ▸ ((h.mem_iff k).1 mem_cons_self).2)

theorem insertLoop_spec (hcut : StrictMono cut) (hsorted : ks.Pairwise (· < ·)) (hk : k = n → u = 0) :
    (k ∈ ks ∧ insertLoop (cut k) (block S cut k) (ks.map (entry S cut n u)) = none) ∨
      ∃ ks' : List ℕ, insertLoop (cut k) (block S cut k) (ks.map (entry S cut n u)) = some (ks'.map (entry S cut n u)) ∧
        ks'.Pairwise (· < ·) ∧ ∀ j, j ∈ ks' ↔ j = k ∨ j ∈ ks := by
  have hentry : entry S cut n u k = ⟨cut k, block S cut k, 0⟩ := by
    unfold entry
    split_ifs with heq
    · rw [hk heq]
    · rfl
  induction ks with
  | nil => exact .inr ⟨[k], by rw [List.map_singleton, hentry]; rfl, List.pairwise_singleton .., by simp⟩
  | cons j ks ih =>
    obtain ⟨hlt, hsorted'⟩ := pairwise_cons.1 hsorted
    simp only [map_cons, insertLoop, show (entry S cut n u j).position = cut j from rfl, Int.ofNat_inj,
      hcut.injective.eq_iff, Int.ofNat_lt, hcut.lt_iff_lt]
    rcases Nat.lt_trichotomy k j with hkj | rfl | hkj
    · rw [if_neg (by omega), if_pos hkj, ← hentry]
      refine .inr ⟨k :: j :: ks, rfl, pairwise_cons.2 ⟨fun i hi => ?_, hsorted⟩, fun _ => mem_cons⟩
      rcases mem_cons.1 hi with rfl | hi
      · exact hkj
      · exact hkj.trans (hlt i hi)
    · exact .inl ⟨mem_cons_self, if_pos rfl⟩
    · rw [if_neg (by omega), if_neg (by omega)]
      rcases ih hsorted' with ⟨hmem, hloop⟩ | ⟨ks', hloop, hks', hmem⟩
      · exact .inl ⟨List.mem_cons_of_mem _ hmem, by rw [hloop]; rfl⟩
      · refine .inr ⟨j :: ks', by rw [hloop]; rfl, pairwise_cons.2 ⟨fun i hi => ?_, hks'⟩, fun i => ?_⟩
        · rcases (hmem i).1 hi with rfl | hi
          · exact hkj
          · exact hlt i hi
        · rw [mem_cons, mem_cons, hmem]
          exact or_left_comm

theorem Held.exists_first (h : Held cut D n u ks) : ∃ m, First D m := by
  classical
  have hmissing : ∃ m, ¬ D m := by
    refine ⟨n + ks.sum + 1, fun hD => ?_⟩
    have := List.le_sum_of_mem ((h.mem_iff _).2 ⟨by omega, hD⟩)
    omega
  exact ⟨Nat.find hmissing, fun k hk => not_not.1 (Nat.find_min hmissing hk), Nat.find_spec hmissing⟩

/-- The state when the blocks `D` were added. -/
def Receives (S : ℕ → UInt8) (cut : ℕ → ℕ) (D : ℕ → Prop) (s : ReceivedBlockList × List UInt8) : Prop :=
  ∃ n u ks m, Held cut D n u ks ∧ First D m ∧ s = (⟨cut n, cut m, ks.map (entry S cut n u)⟩, piece S 0 (cut n + u))

theorem Receives.readBytes (hcut : StrictMono cut) {s : ReceivedBlockList × List UInt8} (h : Receives S cut D s)
    (size : ℕ) : Receives S cut D ((s.1.readBytes size).2, s.2 ++ (s.1.readBytes size).1) := by
  obtain ⟨n, u, ks, m, hheld, hm, rfl⟩ := h
  obtain ⟨n', u', ks', c, hheld', -, hpos, hloop⟩ := hheld.readLoop (S := S) hcut hm size
  refine ⟨n', u', ks', m, hheld', hm, ?_⟩
  have hout := piece_append (S := S) 0 (cut n + u) c
  rw [Nat.zero_add] at hout
  rw [ReceivedBlockList.readBytes, hloop, hpos, hout]

theorem Receives.addBlock (hcut : StrictMono cut) {s : ReceivedBlockList × List UInt8} (h : Receives S cut D s) (k : ℕ) :
    Receives S cut (fun j => D j ∨ j = k) (s.1.addBlock (cut k) (block S cut k), s.2) := by
  have hsame (hD : D k) : (fun j => D j ∨ j = k) = D := funext fun j => propext (or_iff_left_of_imp fun hj => hj ▸ hD)
  obtain ⟨n, u, ks, m, hheld, hm, rfl⟩ := h
  simp only [ReceivedBlockList.addBlock, Int.ofNat_lt, hcut.lt_iff_lt]
  split_ifs with hbelow
  · rw [hsame (hm.below k hbelow)]
    exact ⟨n, u, ks, m, hheld, hm, rfl⟩
  · have hk (heq : k = n) : u = 0 := hheld.used.resolve_right fun hu => hm.missing
      (le_antisymm (not_lt.1 hbelow) (heq ▸ hheld.le hm) ▸ heq ▸ hu.1)
    rcases insertLoop_spec (S := S) hcut hheld.sorted hk with ⟨hmem, hloop⟩ | ⟨ks', hloop, hsorted, hmem⟩
    · rw [hloop, hsame ((hheld.mem_iff k).1 hmem).2]
      exact ⟨n, u, ks, m, hheld, hm, rfl⟩
    · have hheld' : Held cut (fun j => D j ∨ j = k) n u ks' := by
        refine ⟨hsorted, fun j => ?_, fun j hj => .inl (hheld.below j hj), hheld.used.imp_right fun hu => ⟨.inl hu.1, hu.2⟩⟩
        rw [hmem, hheld.mem_iff, and_or_left, or_comm,
          and_iff_right_of_imp fun (hj : j = k) => hj ▸ (hheld.le hm).trans (not_lt.1 hbelow)]
      obtain ⟨m', hm'⟩ := hheld'.exists_first
      refine ⟨n, u, ks', m', hheld', hm', ?_⟩
      have havailable := hheld'.available (S := S) hcut hm' n u (cut n)
      rw [sub_self] at havailable
      rw [hloop]
      dsimp only [computeBytesReceived, bytesAvailable]
      rw [havailable, add_sub_cancel]

/-- **Every run**: what is received is the stream up to the first block that is missing, and it is read once and in order. -/
theorem receiving_run (hcut : StrictMono cut) (h0 : cut 0 = 0) {tr : List Call} {s : ReceivedBlockList × List UInt8}
    (hfits : ∀ k, .addBlock k ∈ tr → cut (k + 1) < 2147483648) (h : (receiving S cut).Run tr s) :
    ∃ m, (∀ k < m, .addBlock k ∈ tr) ∧ .addBlock m ∉ tr ∧ s.1.bytesReceivedInt = cut m ∧
      ∀ size, s.2 ++ (s.1.readBytes size).1 = piece S 0 (min (s.2.length + size) (cut m)) := by
  have hinv : Receives S cut (fun k => .addBlock k ∈ tr) s := by
    refine h.traceInvariant (I := fun tr s => Receives S cut (fun k => .addBlock k ∈ tr) s) ?_ ?_
    · rintro s rfl
      refine ⟨0, 0, [], 0, ⟨.nil, by simp, by simp, .inl rfl⟩, ⟨by simp, List.not_mem_nil⟩, ?_⟩
      rw [h0]
      rfl
    · intro tr s call s' hs hst
      cases call with
      | addBlock k =>
        obtain rfl := hst
        simpa using hs.addBlock hcut k
      | readBytes size =>
        obtain rfl := hst
        simpa using hs.readBytes hcut size
  obtain ⟨n, u, ks, m, hheld, hm, rfl⟩ := hinv
  have hlt : cut m < 2147483648 := by
    cases m with
    | zero => omega
    | succ m => exact hfits m (hm.below m (Nat.lt_add_one m))
  refine ⟨m, hm.below, hm.missing, toInt32_of_mem (x := cut m) (by omega) (by omega), fun size => ?_⟩
  obtain ⟨n', u', ks', c, -, hc, -, hloop⟩ := hheld.readLoop (S := S) hcut hm size
  have hle := hheld.le_cut hcut hm
  have hout := piece_append (S := S) 0 (cut n + u) c
  have hlength : (piece S 0 (cut n + u)).length = cut n + u := by simp [piece]
  rw [Nat.zero_add] at hout
  rw [ReceivedBlockList.readBytes, hloop, hout, hlength]
  congr 1
  omega

theorem receiving_run_two : ∃ s m, (receiving (fun _ => 1) id).Run [Call.addBlock 1, Call.addBlock 0] s ∧
    Call.addBlock m ∉ [Call.addBlock 1, Call.addBlock 0] ∧ s.1.bytesReceivedInt = m := by
  have hrun : (receiving (fun _ => 1) id).Run [Call.addBlock 1, Call.addBlock 0] _ :=
    ((TransSys.Run.init rfl).step (l := Call.addBlock 1) rfl).step (l := Call.addBlock 0) rfl
  obtain ⟨m, -, hmissing, hreceived, -⟩ := receiving_run strictMono_id rfl (by simp) hrun
  exact ⟨_, m, hrun, hmissing, hreceived⟩

/-- An empty block, and the block after it: the byte is not received. -/
theorem bytesReceivedInt_empty : ∃ s, (receiving (fun _ => 1) (· - 1)).Run [Call.addBlock 0, Call.addBlock 1] s ∧
    s.1.bytesReceivedInt = 0 :=
  ⟨_, ((TransSys.Run.init rfl).step (l := Call.addBlock 0) rfl).step (l := Call.addBlock 1) rfl, by decide⟩

end ReceivedBlockList

end Chromium.Net.CurveCP
