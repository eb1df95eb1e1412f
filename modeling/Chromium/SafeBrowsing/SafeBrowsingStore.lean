import Chromium.Lib.Sweep
import Chromium.SafeBrowsing.PrefixSet
import Mathlib.Data.List.Lex
import Mathlib.Data.Prod.Lex

/-!
# The add and sub lists

`chrome/browser/safe_browsing/safe_browsing_store.cc`: `SBProcessSubs` sorts the lists of what was added
and of what is to be taken away again, drops the adds and subs that go together in one sweep over both
lists, and then the full hashes of the dropped adds and all items of the deleted chunks.

-/

namespace Chromium.SafeBrowsing

open Lib
open List (append_assoc length_cons pairwise_cons)

/-- `SBFullHash`: 32 bytes, of which the first four are the prefix. -/
structure SBFullHash where
  fullHash : Vector UInt8 32
  deriving DecidableEq

/-- `SBFullHash::prefix`, on a machine that keeps the lowest byte first. -/
def SBFullHash.sbPrefix (h : SBFullHash) : SBPrefix :=
  (h.fullHash[0].toUInt32 ||| h.fullHash[1].toUInt32 <<< 8 ||| h.fullHash[2].toUInt32 <<< 16 |||
    h.fullHash[3].toUInt32 <<< 24).toInt32

structure SBAddPrefix where
  chunkId : Int32
  sbPrefix : SBPrefix
  deriving DecidableEq

structure SBSubPrefix where
  chunkId : Int32
  addChunkId : Int32
  addPrefix : SBPrefix
  deriving DecidableEq

structure SBAddFullHash where
  chunkId : Int32
  received : Int32
  fullHash : SBFullHash
  deriving DecidableEq

structure SBSubFullHash where
  chunkId : Int32
  addChunkId : Int32
  fullHash : SBFullHash
  deriving DecidableEq

/-- The accessors that all the items have. -/
class SBItem (α : Type) where
  chunkId : α → Int32
  getAddChunkId : α → Int32
  getAddPrefix : α → SBPrefix

/-- The items that have a full hash. -/
class SBHashItem (α : Type) extends SBItem α where
  fullHash : α → SBFullHash

open SBItem SBHashItem

instance : SBItem SBAddPrefix where
  chunkId a := a.chunkId
  getAddChunkId a := a.chunkId
  getAddPrefix a := a.sbPrefix

instance : SBItem SBSubPrefix where
  chunkId s := s.chunkId
  getAddChunkId s := s.addChunkId
  getAddPrefix s := s.addPrefix

instance : SBHashItem SBAddFullHash where
  chunkId a := a.chunkId
  getAddChunkId a := a.chunkId
  getAddPrefix a := a.fullHash.sbPrefix
  fullHash a := a.fullHash

instance : SBHashItem SBSubFullHash where
  chunkId s := s.chunkId
  getAddChunkId s := s.addChunkId
  getAddPrefix s := s.fullHash.sbPrefix
  fullHash s := s.fullHash

variable {A B T : Type}

def sbAddPrefixLess [SBItem A] [SBItem B] (a : A) (b : B) : Bool :=
  if getAddChunkId a ≠ getAddChunkId b then getAddChunkId a < getAddChunkId b
  else getAddPrefix a < getAddPrefix b

/-- Whether `memcmp` of two strings of one length is negative. -/
def memcmpLess : List UInt8 → List UInt8 → Bool
  | a :: as, b :: bs => if a = b then memcmpLess as bs else a < b
  | _, _ => false

def sbAddPrefixHashLess [SBHashItem T] (a b : T) : Bool :=
  if sbAddPrefixLess a b then true
  else if sbAddPrefixLess b a then false
  else memcmpLess (fullHash a).fullHash.toList (fullHash b).fullHash.toList

/-- The variables of `KnockoutSubs`. -/
structure Knockout (S A : Type) where
  subs : Sweep S
  adds : Sweep A
  addsRemoved : List A

section KnockoutSubs

variable {S : Type} (predAS : A → S → Bool) (predSA : S → A → Bool)

/-- The loop of `KnockoutSubs`. -/
def knockoutLoop : ℕ → Knockout S A → Knockout S A
  | 0, s => s
  | fuel + 1, s =>
    match s.adds.current, s.subs.current with
    | some a, some b =>
      if predSA b a then knockoutLoop fuel { s with subs := s.subs.keep }
      else if predAS a b then knockoutLoop fuel { s with adds := s.adds.keep }
      else
        knockoutLoop fuel
          { subs := s.subs.skip, adds := s.adds.skip, addsRemoved := s.addsRemoved ++ [a] }
    | _, _ => s

/-- `KnockoutSubs`: the subs and adds that are left, and the adds that were removed.  Each step passes an
element. -/
def knockoutSubs (subs : List S) (adds : List A) : List S × List A × List A :=
  let s := knockoutLoop predAS predSA (adds.length + subs.length) ⟨.start subs, .start adds, []⟩
  (s.subs.erase, s.adds.erase, s.addsRemoved)

end KnockoutSubs

/-- The inner loop of `RemoveMatchingPrefixes`: the element is dropped, and those behind it that are not
greater. -/
def skipMatching [SBItem T] (remove : SBAddPrefix) : ℕ → Sweep T → Sweep T
  | 0, s => s.skip
  | fuel + 1, s =>
    match s.skip.current with
    | some hash => if sbAddPrefixLess remove hash then s.skip else skipMatching remove fuel s.skip
    | none => s.skip

/-- The loop of `RemoveMatchingPrefixes`. -/
def removeMatchingLoop [SBItem T] : ℕ → List SBAddPrefix → Sweep T → Sweep T
  | 0, _, s => s
  | fuel + 1, removes, s =>
    match s.current, removes with
    | some hash, remove :: rest =>
      if sbAddPrefixLess hash remove then removeMatchingLoop fuel removes s.keep
      else if sbAddPrefixLess remove hash then removeMatchingLoop fuel rest s
      else removeMatchingLoop fuel rest (skipMatching remove s.vec.length s)
    | _, _ => s

def removeMatchingPrefixes [SBItem T] (removes : List SBAddPrefix) (fullHashes : List T) : List T :=
  (removeMatchingLoop (removes.length + fullHashes.length) removes (.start fullHashes)).erase

/-- The loop of `RemoveDeleted`. -/
def removeDeletedLoop [SBItem T] (delSet : Finset Int32) : ℕ → Sweep T → Sweep T
  | 0, s => s
  | fuel + 1, s =>
    match s.current with
    | some item =>
      removeDeletedLoop delSet fuel (if chunkId item ∉ delSet then s.keep else s.skip)
    | none => s

def removeDeleted [SBItem T] (vec : List T) (delSet : Finset Int32) : List T :=
  (removeDeletedLoop delSet vec.length (.start vec)).erase

/-- The four lists of `SBProcessSubs`. -/
structure SBLists where
  addPrefixes : List SBAddPrefix
  subPrefixes : List SBSubPrefix
  addFullHashes : List SBAddFullHash
  subFullHashes : List SBSubFullHash
  deriving DecidableEq

/-- `SBProcessSubs` of lists that are sorted; the pass over the full hashes against each other is turned
off. -/
def SBLists.processSorted (t : SBLists) (addChunksDeleted subChunksDeleted : Finset Int32) : SBLists :=
  let (subs, adds, removedAdds) := 
    knockoutSubs sbAddPrefixLess sbAddPrefixLess t.subPrefixes t.addPrefixes
  let addHashes := removeMatchingPrefixes removedAdds t.addFullHashes
  let subHashes := removeMatchingPrefixes removedAdds t.subFullHashes
  { addPrefixes := removeDeleted adds addChunksDeleted
    subPrefixes := removeDeleted subs subChunksDeleted
    addFullHashes := removeDeleted addHashes addChunksDeleted
    subFullHashes := removeDeleted subHashes subChunksDeleted }

/-- `std::sort`. -/
abbrev StdSort := ∀ T : Type, (T → T → Bool) → List T → List T

/-- `SBProcessSubs`. -/
def SBLists.processSubs (sort : StdSort) (t : SBLists) (addChunksDeleted subChunksDeleted : Finset Int32) :
    SBLists :=
  SBLists.processSorted
    { addPrefixes := sort _ sbAddPrefixLess t.addPrefixes
      subPrefixes := sort _ sbAddPrefixLess t.subPrefixes
      addFullHashes := sort _ sbAddPrefixHashLess t.addFullHashes
      subFullHashes := sort _ sbAddPrefixHashLess t.subFullHashes }
    addChunksDeleted subChunksDeleted

/-! ### The orders -/

def addKey [SBItem A] (a : A) : ℤ ×ₗ ℤ := toLex ((getAddChunkId a).toInt, (getAddPrefix a).toInt)

theorem sbAddPrefixLess_iff [SBItem A] [SBItem B] (a : A) (b : B) :
    sbAddPrefixLess a b = true ↔ addKey a < addKey b := by
  rw [addKey, addKey, Prod.Lex.toLex_lt_toLex, sbAddPrefixLess]
  simp only [Int32.lt_iff_toInt_lt, Int32.toInt_inj]
  split
  · rename_i hne
    simp [hne]
  · rename_i heq
    rw [not_not] at heq
    simp [heq]

def hashKey [SBHashItem T] (a : T) : (ℤ ×ₗ ℤ) ×ₗ List ℕ :=
  toLex (addKey a, (fullHash a).fullHash.toList.map UInt8.toNat)

theorem memcmpLess_iff {as bs : List UInt8} (h : as.length = bs.length) :
    memcmpLess as bs = true ↔ as.map UInt8.toNat < bs.map UInt8.toNat := by
  induction as generalizing bs with
  | nil =>
    obtain rfl : bs = [] := List.length_eq_zero_iff.1 h.symm
    simp [memcmpLess]
  | cons a as ih =>
    cases bs with
    | nil => cases h
    | cons b bs =>
      rw [memcmpLess, List.map_cons, List.map_cons, List.cons_lt_cons_iff]
      split
      · rename_i he
        subst he
        rw [ih (Nat.succ.inj h)]
        simp
      · rename_i hne
        have hne' : a.toNat ≠ b.toNat := fun he => hne (UInt8.toNat_inj.1 he)
        simp [hne', UInt8.lt_iff_toNat_lt]

theorem sbAddPrefixHashLess_iff [SBHashItem T] (a b : T) :
    sbAddPrefixHashLess a b = true ↔ hashKey a < hashKey b := by
  rw [hashKey, hashKey, Prod.Lex.toLex_lt_toLex, sbAddPrefixHashLess]
  simp only [sbAddPrefixLess_iff]
  split
  · rename_i hlt
    simp [hlt]
  · rename_i hge
    split
    · rename_i hlt
      simp [hge, hlt.ne']
    · rename_i hge'
      have heq : addKey a = addKey b := le_antisymm (not_lt.1 hge') (not_lt.1 hge)
      rw [memcmpLess_iff (by simp)]
      simp [heq]

/-- What `std::sort` asks of a comparison. -/
structure StrictWeak (less : T → T → Bool) : Prop where
  asymm : ∀ a b, less a b = true → ¬less b a = true
  negTrans : ∀ a b c, ¬less a b = true → ¬less b c = true → ¬less a c = true

theorem strictWeak_of_key {κ : Type} [LinearOrder κ] {f : T → κ} {less : T → T → Bool}
    (h : ∀ a b, less a b = true ↔ f a < f b) : StrictWeak less where
  asymm a b hab := by
    rw [h] at hab ⊢
    exact hab.asymm
  negTrans a b c hab hbc := by
    rw [h, not_lt] at hab hbc ⊢
    exact hbc.trans hab

/-- What `std::sort` does: it puts the elements in order, equivalent ones in any order. -/
def SortSpec (sort : StdSort) : Prop :=
  ∀ (T : Type) (less : T → T → Bool), StrictWeak less → ∀ xs,
    (sort T less xs).Perm xs ∧ (sort T less xs).Pairwise fun a b => ¬less b a = true

theorem keySorted_of_sort {κ : Type} [LinearOrder κ] {f : T → κ} {less : T → T → Bool} {xs : List T}
    (hless : ∀ a b, less a b = true ↔ f a < f b) (h : xs.Pairwise fun a b => ¬less b a = true) :
    KeySorted f xs :=
  h.imp fun {a b} hab => by
    rw [hless, not_lt] at hab
    exact hab

theorem keySorted_addKey [SBHashItem T] {xs : List T} (h : KeySorted hashKey xs) : KeySorted addKey xs :=
  h.imp fun {a b} hab => by
    rcases Prod.Lex.toLex_le_toLex.1 hab with hlt | ⟨heq, -⟩
    · exact hlt.le
    · exact heq.le

/-! ### Dropping adds and subs in pairs -/

section KnockoutSubs

variable {S κ : Type} [LinearOrder κ] {f : A → κ} {g : S → κ} {predAS : A → S → Bool}
  {predSA : S → A → Bool} {subs : List S} {adds : List A}

/-- What `KnockoutSubs` has kept and removed so far; each pair that is still to come adds to what is
removed. -/
structure KnockoutInv (f : A → κ) (g : S → κ) (subs : List S) (adds : List A) (s : Knockout S A)
    (keptSubs removedSubs restSubs : List S) (keptAdds restAdds : List A) : Prop where
  subsRep : Sweep.Rep s.subs keptSubs restSubs
  addsRep : Sweep.Rep s.adds keptAdds restAdds
  subsPerm : subs.Perm (keptSubs ++ (removedSubs ++ restSubs))
  addsPerm : adds.Perm (keptAdds ++ (s.addsRemoved ++ restAdds))
  subsSorted : KeySorted g restSubs
  addsSorted : KeySorted f (s.addsRemoved ++ restAdds)
  pairs : ∀ k, keyCount g k removedSubs = keyCount f k s.addsRemoved
  count : ∀ k, keyCount f k s.addsRemoved + min (keyCount f k restAdds) (keyCount g k restSubs) =
    min (keyCount f k adds) (keyCount g k subs)

theorem knockoutLoop_spec (hAS : ∀ a b, predAS a b = true ↔ f a < g b)
    (hSA : ∀ b a, predSA b a = true ↔ g b < f a) (fuel : ℕ) (s : Knockout S A)
    (keptSubs removedSubs restSubs : List S) (keptAdds restAdds : List A)
    (h : KnockoutInv f g subs adds s keptSubs removedSubs restSubs keptAdds restAdds)
    (hfuel : restAdds.length + restSubs.length ≤ fuel) :
    ∃ keptSubs removedSubs restSubs keptAdds restAdds,
      KnockoutInv f g subs adds (knockoutLoop predAS predSA fuel s) keptSubs removedSubs restSubs
        keptAdds restAdds ∧ (restAdds = [] ∨ restSubs = []) := by
  induction fuel generalizing s keptSubs removedSubs restSubs keptAdds restAdds with
  | zero =>
    have hnil : restAdds = [] := List.length_eq_zero_iff.1 (by omega)
    exact ⟨_, _, _, _, _, h, .inl hnil⟩
  | succ fuel ih =>
    rw [knockoutLoop, h.addsRep.current, h.subsRep.current]
    cases restAdds with
    | nil => exact ⟨_, _, _, _, _, h, .inl rfl⟩
    | cons a restAdds =>
      cases restSubs with
      | nil => exact ⟨_, _, _, _, _, h, .inr rfl⟩
      | cons b restSubs =>
        rw [List.head?_cons, List.head?_cons]
        dsimp only
        obtain ⟨hsubs, hadds, hsubsPerm, haddsPerm, hsubsSorted, haddsSorted, hpairs, hcount⟩ := h
        have hrestSorted : KeySorted f (a :: restAdds) := (List.pairwise_append.1 haddsSorted).2.1
        simp only [length_cons] at hfuel
        split
        · -- the sub has no add
          rename_i hlt
          rw [hSA] at hlt
          refine ih _ (keptSubs ++ [b]) removedSubs restSubs keptAdds (a :: restAdds)
            ⟨hsubs.keep, hadds, ?_, haddsPerm, (pairwise_cons.1 hsubsSorted).2, haddsSorted, hpairs,
              fun k => ?_⟩ (by simp only [length_cons]; omega)
          · refine hsubsPerm.trans ?_
            rw [append_assoc]
            exact List.Perm.append_left _ List.perm_middle
          · rw [← hcount k, Nat.min_comm, Nat.min_comm (keyCount f k (a :: restAdds)),
              min_keyCount_of_lt (hrestSorted.lt_of_head hlt)]
        · rename_i hge
          rw [hSA, not_lt] at hge
          split
          · -- the add has no sub
            rename_i hlt
            rw [hAS] at hlt
            refine ih _ keptSubs removedSubs (b :: restSubs) (keptAdds ++ [a]) restAdds
              ⟨hsubs, hadds.keep, hsubsPerm, ?_, hsubsSorted, ?_, hpairs, fun k => ?_⟩
              (by simp only [length_cons]; omega)
            · refine haddsPerm.trans ?_
              rw [append_assoc]
              exact List.Perm.append_left _ List.perm_middle
            · exact haddsSorted.sublist ((List.sublist_cons_self a restAdds).append_left _)
            · rw [← hcount k, min_keyCount_of_lt (hsubsSorted.lt_of_head hlt)]
          · -- a pair
            rename_i hge'
            rw [hAS, not_lt] at hge'
            have hkey : f a = g b := le_antisymm hge hge'
            refine ih _ keptSubs (removedSubs ++ [b]) restSubs keptAdds restAdds
              ⟨hsubs.skip, hadds.skip, ?_, ?_, (pairwise_cons.1 hsubsSorted).2, ?_, fun k => ?_,
                fun k => ?_⟩ (by omega)
            · rw [append_assoc]
              exact hsubsPerm
            · rw [append_assoc]
              exact haddsPerm
            · rw [append_assoc]
              exact haddsSorted
            · rw [keyCount_append, keyCount_append, hpairs, keyCount_cons, keyCount_cons, hkey]
              rfl
            · rw [← hcount k, min_keyCount_of_eq hkey, keyCount_append, keyCount_cons]
              simp only [keyCount, List.countP_nil]
              omega

end KnockoutSubs

/-! ### Dropping full hashes and deleted items -/

section Items

variable [SBItem T] {kept rest : List T} {s : Sweep T} {removes : List SBAddPrefix} {r : SBAddPrefix}

theorem skipMatching_spec (fuel : ℕ) (a : T) (h : Sweep.Rep s kept (a :: rest))
    (hfuel : rest.length ≤ fuel) :
    Sweep.Rep (skipMatching r fuel s) kept (rest.dropWhile fun b => ¬sbAddPrefixLess r b) := by
  induction fuel generalizing s a rest with
  | zero =>
    obtain rfl : rest = [] := List.length_eq_zero_iff.1 (by omega)
    exact h.skip
  | succ fuel ih =>
    rw [skipMatching, h.skip.current]
    cases rest with
    | nil => exact h.skip
    | cons b rest =>
      rw [List.head?_cons]
      dsimp only
      split
      · rename_i hlt
        rw [List.dropWhile_cons_of_neg (by simpa using hlt)]
        exact h.skip
      · rename_i hge
        rw [List.dropWhile_cons_of_pos (by simpa using hge)]
        exact ih b h.skip (by simpa using hfuel)

def unmatched (removes : List SBAddPrefix) (xs : List T) : List T :=
  xs.filter fun x => ∀ r ∈ removes, addKey r ≠ addKey x

theorem unmatched_cons (hsorted : KeySorted addKey rest) (hge : ∀ x ∈ rest, addKey r ≤ addKey x) :
    unmatched (r :: removes) rest = unmatched removes (rest.dropWhile fun b => ¬sbAddPrefixLess r b) := by
  induction rest with
  | nil => rfl
  | cons b rest ih =>
    obtain ⟨hb, hrest⟩ := pairwise_cons.1 hsorted
    have hrb := hge b List.mem_cons_self
    by_cases hlt : addKey r < addKey b
    · rw [List.dropWhile_cons_of_neg (by simpa [sbAddPrefixLess_iff] using hlt)]
      refine List.filter_congr fun x hx => ?_
      have hxlt : addKey r < addKey x := (KeySorted.lt_of_head hsorted hlt) x hx
      simp [hxlt.ne]
    · have heq : addKey r = addKey b := le_antisymm hrb (not_lt.1 hlt)
      rw [List.dropWhile_cons_of_pos (by simpa [sbAddPrefixLess_iff] using not_lt.1 hlt), ← ih hrest
        fun x hx => hge x (List.mem_cons_of_mem b hx), unmatched, List.filter_cons_of_neg]
      · rfl
      · simp [heq]

theorem removeMatchingLoop_spec (fuel : ℕ) (h : Sweep.Rep s kept rest)
    (hremoves : KeySorted addKey removes) (hsorted : KeySorted addKey rest)
    (hfuel : removes.length + rest.length ≤ fuel) :
    (removeMatchingLoop fuel removes s).erase = kept ++ unmatched removes rest := by
  induction fuel generalizing s kept rest removes with
  | zero =>
    obtain rfl : rest = [] := List.length_eq_zero_iff.1 (by omega)
    exact h.erase
  | succ fuel ih =>
    unfold removeMatchingLoop
    rw [h.current]
    cases rest with
    | nil => exact h.erase
    | cons a rest =>
      cases removes with
      | nil =>
        have hall : unmatched [] (a :: rest) = a :: rest := by simp [unmatched]
        rw [hall]
        exact h.erase
      | cons r removes =>
        rw [List.head?_cons]
        dsimp only
        simp only [length_cons] at hfuel
        obtain ⟨ha, hrest⟩ := pairwise_cons.1 hsorted
        split
        · -- an item before all the removed adds
          rename_i hlt
          rw [sbAddPrefixLess_iff] at hlt
          have hkeep : unmatched (r :: removes) (a :: rest) = a :: unmatched (r :: removes) rest := by
            refine List.filter_cons_of_pos (by
              simpa using ⟨hlt.ne', fun x hx => (hlt.trans_le ((pairwise_cons.1 hremoves).1 x hx)).ne'⟩)
          rw [ih h.keep hremoves hrest (by simp only [length_cons]; omega), hkeep, append_assoc]
          rfl
        · rename_i hge
          rw [sbAddPrefixLess_iff, not_lt] at hge
          have hall : ∀ x ∈ a :: rest, addKey r ≤ addKey x := by
            intro x hx
            rcases List.mem_cons.1 hx with rfl | hx
            · exact hge
            · exact hge.trans (ha x hx)
          split
          · -- no hit for the removed add
            rename_i hlt
            rw [ih h (pairwise_cons.1 hremoves).2 hsorted (by simp only [length_cons]; omega),
              unmatched_cons hsorted hall, List.dropWhile_cons_of_neg (by simpa using hlt)]
          · rename_i hge'
            have hlength : rest.length ≤ s.vec.length := by
              obtain ⟨-, gap, hvec, -⟩ := h
              rw [hvec]
              simp only [List.length_append, length_cons]
              omega
            have hskip := skipMatching_spec (r := r) s.vec.length a h hlength
            have hle : (rest.dropWhile fun b => ¬sbAddPrefixLess r b).length ≤ rest.length :=
              (List.dropWhile_sublist _).length_le
            rw [ih hskip (pairwise_cons.1 hremoves).2 (hrest.sublist (List.dropWhile_sublist _))
              (by omega), unmatched_cons hsorted hall, List.dropWhile_cons_of_pos (by simpa using hge')]

def notDeleted (delSet : Finset Int32) (xs : List T) : List T := xs.filter fun x => chunkId x ∉ delSet

theorem removeDeletedLoop_spec (delSet : Finset Int32) (h : Sweep.Rep s kept rest) :
    (removeDeletedLoop delSet rest.length s).erase = kept ++ notDeleted delSet rest := by
  induction rest generalizing s kept with
  | nil => exact h.erase
  | cons a rest ih =>
    rw [length_cons, removeDeletedLoop, h.current, List.head?_cons]
    dsimp only
    split
    · rename_i hnot
      rw [ih h.keep, notDeleted, notDeleted, List.filter_cons_of_pos (by simpa using hnot), append_assoc]
      rfl
    · rename_i hin
      rw [ih h.skip, notDeleted, notDeleted, List.filter_cons_of_neg (by simpa using hin)]

theorem removeDeleted_eq (delSet : Finset Int32) (xs : List T) :
    removeDeleted xs delSet = notDeleted delSet xs := removeDeletedLoop_spec delSet (Sweep.rep_start xs)

theorem removeMatchingPrefixes_eq {xs : List T} (hremoves : KeySorted addKey removes)
    (hsorted : KeySorted addKey xs) : removeMatchingPrefixes removes xs = unmatched removes xs :=
  removeMatchingLoop_spec _ (Sweep.rep_start xs) hremoves hsorted le_rfl

end Items

theorem keyCount_perm {κ : Type} [LinearOrder κ] {f : T → κ} {xs ys : List T}
    (h : xs.Perm ys) (k : κ) : keyCount f k xs = keyCount f k ys := h.countP_eq _

/-- **`KnockoutSubs`** of two sorted lists: as many pairs are removed for each key as there are. -/
theorem knockoutSubs_spec {S κ : Type} [LinearOrder κ] {f : A → κ} {g : S → κ}
    {predAS : A → S → Bool} {predSA : S → A → Bool} {subs : List S} {adds : List A}
    (hAS : ∀ a b, predAS a b = true ↔ f a < g b) (hSA : ∀ b a, predSA b a = true ↔ g b < f a)
    (hsubs : KeySorted g subs) (hadds : KeySorted f adds) :
    ∃ keptSubs removedSubs keptAdds removedAdds,
      knockoutSubs predAS predSA subs adds = (keptSubs, keptAdds, removedAdds) ∧
      subs.Perm (keptSubs ++ removedSubs) ∧ adds.Perm (keptAdds ++ removedAdds) ∧
      KeySorted f removedAdds ∧
      (∀ k, keyCount g k removedSubs = min (keyCount f k adds) (keyCount g k subs)) ∧
      ∀ k, keyCount f k removedAdds = min (keyCount f k adds) (keyCount g k subs) := by
  have hstart : KnockoutInv f g subs adds ⟨.start subs, .start adds, []⟩ [] [] subs [] adds :=
    ⟨Sweep.rep_start _, Sweep.rep_start _, List.Perm.refl _, List.Perm.refl _, hsubs, hadds,
      fun _ => rfl, fun _ => Nat.zero_add _⟩
  obtain ⟨keptSubs, removedSubs, restSubs, keptAdds, restAdds, h, hnil⟩ :=
    knockoutLoop_spec hAS hSA (adds.length + subs.length) _ _ _ _ _ _ hstart le_rfl
  have hcount (k : κ) : keyCount f k (knockoutLoop predAS predSA (adds.length + subs.length)
      ⟨.start subs, .start adds, []⟩).addsRemoved = min (keyCount f k adds) (keyCount g k subs) := by
    rw [← h.count k]
    rcases hnil with rfl | rfl
    · exact (Nat.zero_min _).symm ▸ rfl
    · exact (Nat.min_zero _).symm ▸ rfl
  refine ⟨keptSubs ++ restSubs, removedSubs, keptAdds ++ restAdds, _, ?_, ?_, ?_, ?_, ?_, hcount⟩
  · rw [knockoutSubs, h.subsRep.erase, h.addsRep.erase]
  · refine h.subsPerm.trans ?_
    rw [append_assoc]
    exact List.Perm.append_left _ List.perm_append_comm
  · refine h.addsPerm.trans ?_
    rw [append_assoc]
    exact List.Perm.append_left _ List.perm_append_comm
  · exact (List.pairwise_append.1 h.addsSorted).1
  · exact fun k => (h.pairs k).trans (hcount k)

structure Processed (t u : SBLists) (addChunksDeleted subChunksDeleted : Finset Int32)
    (keptAdds removedAdds : List SBAddPrefix) (keptSubs removedSubs : List SBSubPrefix) : Prop where
  adds : t.addPrefixes.Perm (keptAdds ++ removedAdds)
  subs : t.subPrefixes.Perm (keptSubs ++ removedSubs)
  addsCount : ∀ k, keyCount addKey k removedAdds =
    min (keyCount addKey k t.addPrefixes) (keyCount addKey k t.subPrefixes)
  subsCount : ∀ k, keyCount addKey k removedSubs =
    min (keyCount addKey k t.addPrefixes) (keyCount addKey k t.subPrefixes)
  addPrefixes : u.addPrefixes.Perm (notDeleted addChunksDeleted keptAdds)
  subPrefixes : u.subPrefixes.Perm (notDeleted subChunksDeleted keptSubs)
  addFullHashes : u.addFullHashes.Perm
    (notDeleted addChunksDeleted (unmatched removedAdds t.addFullHashes))
  subFullHashes : u.subFullHashes.Perm
    (notDeleted subChunksDeleted (unmatched removedAdds t.subFullHashes))

/-- **`SBProcessSubs`**: for each add chunk and prefix, as many adds and subs are removed in pairs as there
are; the full hashes of the removed adds are removed; and then what is of a deleted chunk. -/
theorem processSubs_spec (sort : StdSort) (hsort : SortSpec sort) (t : SBLists)
    (addChunksDeleted subChunksDeleted : Finset Int32) :
    ∃ keptAdds removedAdds keptSubs removedSubs,
      Processed t (t.processSubs sort addChunksDeleted subChunksDeleted) addChunksDeleted
        subChunksDeleted keptAdds removedAdds keptSubs removedSubs := by
  obtain ⟨haddsPerm, haddsSorted⟩ := hsort _ _ (strictWeak_of_key sbAddPrefixLess_iff) t.addPrefixes
  obtain ⟨hsubsPerm, hsubsSorted⟩ := hsort _ _ (strictWeak_of_key sbAddPrefixLess_iff) t.subPrefixes
  obtain ⟨haddHashPerm, haddHashSorted⟩ :=
    hsort _ _ (strictWeak_of_key sbAddPrefixHashLess_iff) t.addFullHashes
  obtain ⟨hsubHashPerm, hsubHashSorted⟩ :=
    hsort _ _ (strictWeak_of_key sbAddPrefixHashLess_iff) t.subFullHashes
  obtain ⟨keptSubs, removedSubs, keptAdds, removedAdds, hknock, hsubs, hadds, hremoved, hcountSubs,
    hcountAdds⟩ := knockoutSubs_spec sbAddPrefixLess_iff sbAddPrefixLess_iff
      (keySorted_of_sort sbAddPrefixLess_iff hsubsSorted) (keySorted_of_sort sbAddPrefixLess_iff haddsSorted)
  have haddHash := keySorted_addKey (keySorted_of_sort sbAddPrefixHashLess_iff haddHashSorted)
  have hsubHash := keySorted_addKey (keySorted_of_sort sbAddPrefixHashLess_iff hsubHashSorted)
  have hmin (k : ℤ ×ₗ ℤ) := congrArg₂ min (keyCount_perm (f := addKey) haddsPerm k)
    (keyCount_perm (f := addKey) hsubsPerm k)
  have hprocess : t.processSubs sort addChunksDeleted subChunksDeleted =
      { addPrefixes := notDeleted addChunksDeleted keptAdds
        subPrefixes := notDeleted subChunksDeleted keptSubs
        addFullHashes := notDeleted addChunksDeleted
          (unmatched removedAdds (sort _ sbAddPrefixHashLess t.addFullHashes))
        subFullHashes := notDeleted subChunksDeleted
          (unmatched removedAdds (sort _ sbAddPrefixHashLess t.subFullHashes)) } := by
    unfold SBLists.processSubs SBLists.processSorted
    dsimp only
    rw [hknock]
    dsimp only
    rw [removeMatchingPrefixes_eq hremoved haddHash, removeMatchingPrefixes_eq hremoved hsubHash]
    simp only [removeDeleted_eq]
  refine ⟨keptAdds, removedAdds, keptSubs, removedSubs, haddsPerm.symm.trans hadds,
    hsubsPerm.symm.trans hsubs, fun k => (hcountAdds k).trans (hmin k),
    fun k => (hcountSubs k).trans (hmin k), ?_, ?_, ?_, ?_⟩
  · exact hprocess ▸ List.Perm.refl _
  · exact hprocess ▸ List.Perm.refl _
  · rw [hprocess]
    exact (haddHashPerm.filter _).filter _
  · rw [hprocess]
    exact (hsubHashPerm.filter _).filter _

def mergeSort : StdSort := fun _ less xs => xs.mergeSort fun a b => !less b a

theorem mergeSort_spec : SortSpec mergeSort := by
  intro T less hless xs
  refine ⟨List.mergeSort_perm xs _, ?_⟩
  have hsorted : (xs.mergeSort fun a b => !less b a).Pairwise fun a b => (!less b a) = true := by
    refine List.pairwise_mergeSort ?_ ?_ xs
    · intro a b c hab hbc
      simpa using hless.negTrans c b a (by simpa using hbc) (by simpa using hab)
    · intro a b
      cases hab : less a b
      · simp
      · simpa using hless.asymm a b hab
  exact hsorted.imp fun {a b} hab => by simpa using hab

def pairedLists : SBLists where
  addPrefixes := [⟨1, 0⟩, ⟨1, 0⟩, ⟨2, 9⟩]
  subPrefixes := [⟨7, 1, 0⟩]
  addFullHashes := [⟨1, 0, ⟨Vector.replicate 32 0⟩⟩]
  subFullHashes := []

theorem processSubs_spec_paired : ∃ keptAdds removedAdds keptSubs removedSubs,
      Processed pairedLists (pairedLists.processSubs mergeSort {2} ∅) {2} ∅ keptAdds removedAdds keptSubs
        removedSubs :=
  processSubs_spec mergeSort mergeSort_spec pairedLists {2} ∅

example : pairedLists.processSorted {2} ∅ = ⟨[⟨1, 0⟩], [], [], []⟩ := by decide +kernel

end Chromium.SafeBrowsing
