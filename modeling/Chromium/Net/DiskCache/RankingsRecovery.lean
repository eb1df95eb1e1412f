import Chromium.Net.DiskCache.Rankings

/-!
# Rankings after a crash

An insertion and a removal are followed store by store.  Each index that they leave on disk is in
one of the stages `InsertStage` or `RemoveStage`; the index that is opened again finishes an insertion
that had its transaction (`Ready`, `Inserted`) and undoes a removal until the removed node is
stored (`Undoable`, `Removed`).

-/

namespace Chromium.Net.DiskCache

open Function (update update_eq_self update_idem update_of_ne update_self)
open List (concat_eq_append eq_nil_or_concat exists_cons_of_ne_nil mem_cons_self nodup_cons)

variable {I J K : Index} {lists : RankingsList → List CacheAddr} {l : RankingsList} {n r : CacheAddr}
  {s s' : Rankings} {loc : Loc}

namespace Rankings

variable {data : RankingsNode}

/-! ### Loading a node -/

/-- Only the memory of the process differs. -/
structure SameStores (s s' : Rankings) : Prop where
  heads : s'.heads = s.heads
  tails : s'.tails = s.tails
  isOpen : s'.isOpen = s.isOpen
  index : s'.index = s.index
  past : s'.past = s.past

theorem isHead_isSome (h : s.heads l = n) : (s.isHead n).isSome := by
  rw [isHead, List.find?_isSome]
  exact ⟨l, by cases l <;> decide, by simp [h]⟩

theorem isTail_isSome (h : s.tails l = n) : (s.isTail n).isSome := by
  rw [isTail, List.find?_isSome]
  exact ⟨l, by cases l <;> decide, by simp [h]⟩

theorem sanityCheck_eq_true (hnext : RankingsAddr data.next)
    (hprev : RankingsAddr data.prev) (hhead : data.prev = n → ∃ l, s.heads l = n)
    (htail : data.next = n → ∃ l, s.tails l = n) : s.sanityCheck n data true = true := by
  have hhead' : ¬(n = data.prev ∧ (s.isHead data.prev).isNone = true) := by
    rintro ⟨he, hnone⟩
    obtain ⟨l, hl⟩ := hhead he.symm
    rw [← he, Option.isNone_iff_eq_none] at hnone
    exact absurd (isHead_isSome hl) (by simp [hnone])
  have htail' : ¬(n = data.next ∧ (s.isTail data.next).isNone = true) := by
    rintro ⟨he, hnone⟩
    obtain ⟨l, hl⟩ := htail he.symm
    rw [← he, Option.isNone_iff_eq_none] at hnone
    exact absurd (isTail_isSome hl) (by simp [hnone])
  have hn := hnext.ne_zero
  have hp := hprev.ne_zero
  unfold sanityCheck
  rw [if_neg (by simp [hn, hp]), if_neg (by simp [hn]), if_neg hhead', if_neg htail', if_neg (by simp [hn])]
  simp [hnext.sanityCheck, hnext.fileType, hprev.sanityCheck, hprev.fileType]

/-- **A node of a list is loaded**: its links are those on disk, and nothing else changes. -/
theorem getRanking_spec (slot : Slot) (hn : RankingsAddr n)
    (hnext : RankingsAddr (s.index.nodes n).next) (hprev : RankingsAddr (s.index.nodes n).prev)
    (hhead : (s.index.nodes n).prev = n → ∃ l, s.heads l = n)
    (htail : (s.index.nodes n).next = n → ∃ l, s.tails l = n)
    (hopen : s.isOpen n = true → SameLinks (s.mem (.entry n)) (s.index.nodes n)) :
    ∃ s' loc, s.getRanking slot n = (s', some loc) ∧ SameStores s s' ∧
      (loc = .own slot ∨ loc = .entry n) ∧ SameLinks (s'.mem loc) (s.index.nodes n) ∧
      ∀ loc' ≠ .own slot, s'.mem loc' = s.mem loc' := by
  have hdata : (s.load slot n).mem (.own slot) = s.index.nodes n := by simp [load]
  have hsane : (s.load slot n).sanityCheck n (s.index.nodes n) true = true :=
    sanityCheck_eq_true hnext hprev hhead htail
  have hframe (loc' : Loc) (hloc : loc' ≠ .own slot) : (s.load slot n).mem loc' = s.mem loc' :=
    update_of_ne hloc _ _
  have hsame : SameStores s (s.load slot n) := ⟨rfl, rfl, rfl, rfl, rfl⟩
  unfold getRanking
  simp only [hn.isInitialized, hdata, hsane, Bool.not_true, Bool.false_eq_true, if_false]
  split
  · exact ⟨_, _, rfl, hsame, .inl rfl, hdata ▸ ⟨rfl, rfl⟩, hframe⟩
  · split
    · rename_i hisOpen
      refine ⟨_, _, rfl, hsame, .inr rfl, ?_, hframe⟩
      rw [hframe _ (by simp)]
      exact hopen hisOpen
    · refine ⟨_, _, rfl, ⟨rfl, rfl, rfl, rfl, rfl⟩, .inl rfl, ?_, fun loc' hloc => ?_⟩
      · simp only [setData, update_self]
        exact ⟨rfl, rfl⟩
      · rw [← hframe loc' hloc]
        exact update_of_ne hloc _ _

theorem store_nodes_self (s : Rankings) (a : CacheAddr) (loc : Loc) : (s.store a loc).index.nodes a = s.mem loc :=
  update_self ..

theorem store_nodes_of_ne {a b : CacheAddr} (h : b ≠ a) (s : Rankings) (loc : Loc) :
    (s.store a loc).index.nodes b = s.index.nodes b :=
  update_of_ne h ..

/-! ### What holds after every store -/

/-- What holds of the index now and before each store so far. -/
structure Always (P : Index → Prop) (s : Rankings) : Prop where
  now : P s.index
  before : ∀ J ∈ s.past, P J

theorem Always.persist {P : Index → Prop} (h : Always P s) (hJ : P J) : Always P (s.persist J) :=
  ⟨hJ, List.forall_mem_cons.2 ⟨h.now, h.before⟩⟩

theorem Always.congr {P : Index → Prop} (h : Always P s) (hindex : s'.index = s.index)
    (hpast : s'.past = s.past) : Always P s' :=
  ⟨hindex ▸ h.now, hpast ▸ h.before⟩

/-! ### An insertion -/

/-- A node can be put in front of a list: the head is sound and does not lead anywhere but to
itself or to that node. -/
structure CanInsert (I : Index) (l : RankingsList) (n : CacheAddr) : Prop where
  node : RankingsAddr n
  empty : I.heads l = 0 → I.tails l = 0 ∨ I.tails l = n
  head : I.heads l ≠ 0 → RankingsAddr (I.heads l)
  head_ne : I.heads l ≠ n
  headNext : I.heads l ≠ 0 → RankingsAddr (I.nodes (I.heads l)).next
  headPrev : I.heads l ≠ 0 → (I.nodes (I.heads l)).prev = I.heads l ∨ (I.nodes (I.heads l)).prev = n
  headTail : I.heads l ≠ 0 → (I.nodes (I.heads l)).next = I.heads l → I.tails l = I.heads l
  tail : I.heads l ≠ 0 → RankingsAddr (I.tails l) ∧ I.tails l ≠ n

/-- An insertion that has its transaction: the index still has the old head. -/
structure Ready (I : Index) (l : RankingsList) (n : CacheAddr) (J : Index) : Prop where
  heads : J.heads = I.heads
  tails : J.tails = I.tails ∨ I.heads l = 0 ∧ J.tails = Function.update I.tails l n
  next : ∀ a, a ≠ n → (J.nodes a).next = (I.nodes a).next
  prev : ∀ a, a ≠ n → (J.nodes a).prev = (I.nodes a).prev ∨ a = I.heads l ∧ (J.nodes a).prev = n

structure Inserted (I : Index) (l : RankingsList) (n : CacheAddr) (J : Index) : Prop where
  heads : J.heads = Function.update I.heads l n
  tails : J.tails = if I.heads l = 0 then Function.update I.tails l n else I.tails
  nodeNext : (J.nodes n).next = if I.heads l = 0 then n else I.heads l
  nodePrev : (J.nodes n).prev = n
  next : ∀ a, a ≠ n → (J.nodes a).next = (I.nodes a).next
  prev : ∀ a, a ≠ n → a ≠ 0 → (J.nodes a).prev = if a = I.heads l then n else (I.nodes a).prev

/-- The transaction of an operation on a node. -/
structure Locked (op : Operation) (n : CacheAddr) (l : RankingsList) (J : Index) : Prop where
  transaction : J.transaction = n
  operation : J.operation = op
  operationList : J.operationList = l

inductive InsertStage (I : Index) (l : RankingsList) (n : CacheAddr) (J : Index) : Prop
  | start (same : SamePtrs I J) (idle : J.transaction = 0)
  | running (ready : Ready I l n J) (locked : Locked .INSERT n l J)
  | done (inserted : Inserted I l n J) (idle : J.transaction = 0 ∨ Locked .INSERT n l J)

theorem Ready.refl (I : Index) : Ready I l n I := ⟨rfl, .inl rfl, fun _ _ => rfl, fun _ _ => .inl rfl⟩

theorem Ready.congr (h : Ready I l n J) (hsame : SamePtrs J K) : Ready I l n K where
  heads := hsame.heads.trans h.heads
  tails := by
    rw [hsame.tails]
    exact h.tails
  next a ha := (hsame.next a).trans (h.next a ha)
  prev a ha := by
    rw [hsame.prev a]
    exact h.prev a ha

theorem Inserted.congr (h : Inserted I l n J) (hsame : SamePtrs J K) : Inserted I l n K where
  heads := hsame.heads.trans h.heads
  tails := hsame.tails.trans h.tails
  nodeNext := (hsame.next n).trans h.nodeNext
  nodePrev := (hsame.prev n).trans h.nodePrev
  next a ha := (hsame.next a).trans (h.next a ha)
  prev a ha ha0 := (hsame.prev a).trans (h.prev a ha ha0)

theorem Ready.trans_inserted (h : Ready I l n J) (h' : Inserted J l n K) : Inserted I l n K where
  heads := by rw [h'.heads, h.heads]
  tails := by
    rw [h'.tails, h.heads]
    split
    · rcases h.tails with ht | ⟨-, ht⟩
      · rw [ht]
      · rw [ht, update_idem]
    · rcases h.tails with ht | ⟨h0, -⟩
      · exact ht
      · contradiction
  nodeNext := by rw [h'.nodeNext, h.heads]
  nodePrev := h'.nodePrev
  next a ha := (h'.next a ha).trans (h.next a ha)
  prev a ha ha0 := by
    rw [h'.prev a ha ha0, h.heads]
    split
    · rfl
    · rcases h.prev a ha with hp | ⟨hp, -⟩
      · exact hp
      · contradiction

theorem CanInsert.headPrevAddr (hI : CanInsert I l n) (hne : I.heads l ≠ 0) :
    RankingsAddr (I.nodes (I.heads l)).prev := by
  rcases hI.headPrev hne with h | h
  · rw [h]
    exact hI.head hne
  · rw [h]
    exact hI.node

theorem Ready.storeHead (hsame : SamePtrs I J)
    (hnext : data.next = (J.nodes (I.heads l)).next) (hprev : data.prev = n) :
    Ready I l n { J with nodes := update J.nodes (I.heads l) data } where
  heads := hsame.heads
  tails := .inl hsame.tails
  next a _ := by
    by_cases he : a = I.heads l
    · simp only [he, update_self]
      rw [hnext, hsame.next]
    · simp only [update_of_ne he]
      exact hsame.next a
  prev a _ := by
    by_cases he : a = I.heads l
    · simp [he, hprev]
    · simp only [update_of_ne he]
      exact .inl (hsame.prev a)

theorem Ready.store (h : Ready I l n J) (data : RankingsNode) :
    Ready I l n { J with nodes := update J.nodes n data } where
  heads := h.heads
  tails := h.tails
  next a ha := by
    dsimp only
    rw [update_of_ne ha]
    exact h.next a ha
  prev a ha := by
    dsimp only
    rw [update_of_ne ha]
    exact h.prev a ha

theorem Ready.writeHead (h : Ready I l n J)
    (htails : J.tails = if I.heads l = 0 then update I.tails l n else I.tails)
    (hnext : (J.nodes n).next = if I.heads l = 0 then n else I.heads l)
    (hprev : (J.nodes n).prev = n)
    (hfirst : I.heads l ≠ 0 → (J.nodes (I.heads l)).prev = n) :
    Inserted I l n { J with heads := update J.heads l n } where
  heads := by rw [h.heads]
  tails := htails
  nodeNext := hnext
  nodePrev := hprev
  next := h.next
  prev a ha ha0 := by
    split
    · rename_i he
      rw [he]
      exact hfirst (he ▸ ha0)
    · rename_i he
      exact (h.prev a ha).resolve_right fun hp => he hp.1

theorem Locked.congr {op : Operation} (h : Locked op n l J) (htransaction : K.transaction = J.transaction)
    (hoperation : K.operation = J.operation) (hlist : K.operationList = J.operationList) :
    Locked op n l K :=
  ⟨htransaction.trans h.transaction, hoperation.trans h.operation, hlist.trans h.operationList⟩

theorem store_writeHead_spec {P : Index → Prop} (hP : ∀ J, InsertStage I l n J → P J)
    (hI : CanInsert I l n) (halways : Always P s)
    (hready : Ready I l n s.index) (hlocked : Locked .INSERT n l s.index)
    (htails : s.index.tails = if I.heads l = 0 then update I.tails l n else I.tails)
    (hfirst : I.heads l ≠ 0 → (s.index.nodes (I.heads l)).prev = n) (hhead : s.heads l = n)
    (hnext : (s.mem loc).next = if I.heads l = 0 then n else I.heads l)
    (hprev : (s.mem loc).prev = n) :
    Always P ((s.store n loc).writeHead l) ∧ Inserted I l n ((s.store n loc).writeHead l).index ∧
      Locked .INSERT n l ((s.store n loc).writeHead l).index := by
  have hnode : Ready I l n (s.store n loc).index := hready.store _
  have hlocked' : Locked .INSERT n l (s.store n loc).index := hlocked.congr rfl rfl rfl
  have hdata : (s.store n loc).index.nodes n = s.mem loc := update_self n _ _
  have hdone : Inserted I l n ((s.store n loc).writeHead l).index := by
    have hindex : ((s.store n loc).writeHead l).index = { (s.store n loc).index with
          heads := update (s.store n loc).index.heads l n } := by
      rw [← hhead]
      rfl
    rw [hindex]
    refine hnode.writeHead htails (hdata ▸ hnext) (hdata ▸ hprev) fun hne => ?_
    have hother : (s.store n loc).index.nodes (I.heads l) = s.index.nodes (I.heads l) :=
      update_of_ne hI.head_ne _ _
    rw [hother]
    exact hfirst hne
  have hlast : Locked .INSERT n l ((s.store n loc).writeHead l).index := hlocked'.congr rfl rfl rfl
  exact ⟨(halways.persist (hP _ (.running hnode hlocked'))).persist (hP _ (.done hdone (.inr hlast))), hdone, hlast⟩

/-- **The stores of an insertion** once the head leads back to the node. -/
theorem insertNode_spec {P : Index → Prop} (hP : ∀ J, InsertStage I l n J → P J)
    (hI : CanInsert I l n) (halways : Always P s)
    (hready : Ready I l n s.index) (hlocked : Locked .INSERT n l s.index)
    (hheads : s.heads = I.heads) (htails : s.tails = I.tails) (hdisk : s.index.tails = I.tails)
    (hfirst : I.heads l ≠ 0 → (s.index.nodes (I.heads l)).prev = n) (loc : Loc) :
    Always P (s.insertNode n loc l) ∧ Inserted I l n (s.insertNode n loc l).index ∧
      Locked .INSERT n l (s.insertNode n loc l).index := by
  have hcond : (s.tails l).isInitialized = false ∨ s.tails l = n ↔ I.heads l = 0 := by
    rw [htails]
    refine ⟨fun h => ?_, fun h => ?_⟩
    · by_contra hne
      obtain ⟨hvalid, hn⟩ := hI.tail hne
      rcases h with h | h
      · exact absurd hvalid.isInitialized (by simp [h])
      · exact hn h
    · rcases hI.empty h with h | h
      · exact .inl (by rw [h]; decide)
      · exact .inr h
  dsimp only [insertNode]
  split
  · rename_i hc
    have hempty : I.heads l = 0 := hcond.1 hc
    have hready' : Ready I l n { s.index with tails := update s.index.tails l n } :=
      ⟨hready.heads, .inr ⟨hempty, congrArg (update · l n) hdisk⟩, hready.next, hready.prev⟩
    have hlocked' : Locked .INSERT n l
        { s.index with tails := update s.index.tails l n } := hlocked.congr rfl rfl rfl
    refine store_writeHead_spec hP hI (Always.persist (halways.congr rfl rfl) ?_)
      ?_ ?_ ?_ hfirst ?_ ?_ ?_
    · refine hP _ (.running ?_ ?_)
      · simpa [setData, setHead, setTail] using hready'
      · simpa [setData, setHead, setTail] using hlocked'
    · simpa [writeTail, persist, setData, setHead, setTail] using hready'
    · simpa [writeTail, persist, setData, setHead, setTail] using hlocked'
    · simp [writeTail, persist, setData, setHead, setTail, hempty, hdisk]
    · simp [writeTail, persist, setData, setHead, setTail]
    · simp [writeTail, persist, setData, setHead, setTail, hempty]
    · simp [writeTail, persist, setData, setHead, setTail]
  · rename_i hc
    have hempty : I.heads l ≠ 0 := fun h => hc (hcond.2 h)
    refine store_writeHead_spec hP hI (halways.congr rfl rfl) hready hlocked ?_ hfirst ?_ ?_ ?_
    · simp [setData, setHead, hempty, hdisk]
    · simp [setData, setHead]
    · simp [setData, setHead, hempty, hheads]
    · simp [setData, setHead]

theorem beginTransaction_spec {P : Index → Prop} (op : Operation) (halways : Always P s)
    (hbefore : ∀ J, SamePtrs s.index J → J.transaction = s.index.transaction → P J)
    (hlast : ∀ J, SamePtrs s.index J → Locked op n l J → P J) :
    Always P (s.beginTransaction n op l) ∧ SamePtrs s.index (s.beginTransaction n op l).index ∧
      Locked op n l (s.beginTransaction n op l).index := by
  have hsame : SamePtrs s.index (s.beginTransaction n op l).index :=
    ⟨rfl, rfl, fun _ => rfl, fun _ => rfl⟩
  have hlocked : Locked op n l (s.beginTransaction n op l).index := ⟨rfl, rfl, rfl⟩
  refine ⟨Always.persist (Always.persist (Always.persist halways ?_) ?_) ?_, hsame, hlocked⟩
  · exact hbefore _ ⟨rfl, rfl, fun _ => rfl, fun _ => rfl⟩ rfl
  · exact hbefore _ ⟨rfl, rfl, fun _ => rfl, fun _ => rfl⟩ rfl
  · exact hlast _ hsame hlocked

theorem endTransaction_spec {P : Index → Prop} (halways : Always P s)
    (hafter : ∀ J, SamePtrs s.index J → J.transaction = 0 → P J) :
    Always P s.endTransaction ∧ SamePtrs s.index s.endTransaction.index ∧
      s.endTransaction.index.transaction = 0 := by
  have hsame : SamePtrs s.index s.endTransaction.index := ⟨rfl, rfl, fun _ => rfl, fun _ => rfl⟩
  refine ⟨Always.persist (Always.persist (Always.persist halways ?_) ?_) ?_, hsame, rfl⟩
  · exact hafter _ ⟨rfl, rfl, fun _ => rfl, fun _ => rfl⟩ rfl
  · exact hafter _ ⟨rfl, rfl, fun _ => rfl, fun _ => rfl⟩ rfl
  · exact hafter _ hsame rfl

theorem insert_spec {P : Index → Prop} (hP : ∀ J, InsertStage s.index l n J → P J)
    (hI : CanInsert s.index l n) (halways : Always P s) (hidle : s.index.transaction = 0)
    (hheads : s.heads = s.index.heads) (htails : s.tails = s.index.tails)
    (hopen : s.index.heads l ≠ 0 → s.isOpen (s.index.heads l) = true →
      SameLinks (s.mem (.entry (s.index.heads l))) (s.index.nodes (s.index.heads l))) (loc : Loc) :
    Always P (s.insert n loc l) ∧
      Inserted s.index l n (s.insert n loc l).index ∧ (s.insert n loc l).index.transaction = 0 := by
  obtain ⟨halways, hsame, hlocked⟩ := beginTransaction_spec (n := n) (l := l) .INSERT halways
    (fun J hJ hidle' => hP J (.start hJ (hidle'.trans hidle)))
    (fun J hJ hlocked => hP J (.running ((Ready.refl _).congr hJ) hlocked))
  have hready := (Ready.refl (l := l) (n := n) s.index).congr hsame
  have hfinish (S : Rankings) (hS : Always P (S.insertNode n loc l) ∧
      Inserted s.index l n (S.insertNode n loc l).index ∧
      Locked .INSERT n l (S.insertNode n loc l).index) :
      Always P (S.insertNode n loc l).endTransaction ∧
        Inserted s.index l n (S.insertNode n loc l).endTransaction.index ∧
        (S.insertNode n loc l).endTransaction.index.transaction = 0 := by
    obtain ⟨halways, hinserted, -⟩ := hS
    obtain ⟨hend, hsame, hzero⟩ := endTransaction_spec halways fun J hJ hidle' =>
      hP J (.done (hinserted.congr hJ) (.inl hidle'))
    exact ⟨hend, hinserted.congr hsame, hzero⟩
  dsimp only [insert]
  split
  · rename_i hhead
    have hne : s.index.heads l ≠ 0 := by
      intro h
      have hzero : (s.beginTransaction n .INSERT l).heads l = 0 := (congrFun hheads l).trans h
      rw [hzero] at hhead
      cases hhead
    have hhl : (s.beginTransaction n .INSERT l).heads l = s.index.heads l := congrFun hheads l
    rw [hhl]
    obtain ⟨s', headLoc, hget, hsame', -, hlinks, -⟩ :=
      getRanking_spec (s := s.beginTransaction n .INSERT l) .head (hI.head hne) (hI.headNext hne)
        (hI.headPrevAddr hne)
        (fun _ => ⟨l, hhl⟩) (fun h => ⟨l, (congrFun htails l).trans (hI.headTail hne h)⟩) (hopen hne)
    rw [hget]
    dsimp only
    have hprev : ¬((s'.mem headLoc).prev ≠ s.index.heads l ∧ (s'.mem headLoc).prev ≠ n) := by
      rw [hlinks.prev]
      exact fun h => (hI.headPrev hne).elim h.1 h.2
    rw [if_neg hprev]
    have hback : Ready s.index l n ((s'.setData headLoc { s'.mem headLoc with prev := n }).store
        (s.index.heads l) headLoc).index := by
      refine Ready.storeHead (hsame'.index ▸ hsame) ?_ ?_
      · simp only [setData, hsame'.index, update_self]
        exact hlinks.next
      · simp [setData]
    refine hfinish _ (insertNode_spec hP hI (Always.persist ?_ ?_) hback ?_ ?_ ?_ ?_ ?_ loc)
    · exact halways.congr hsame'.index hsame'.past
    · exact hP _ (.running hback ((hsame'.index ▸ hlocked).congr rfl rfl rfl))
    · exact (hsame'.index ▸ hlocked).congr rfl rfl rfl
    · exact hsame'.heads.trans hheads
    · exact hsame'.tails.trans htails
    · exact (congrArg Index.tails hsame'.index).trans rfl
    · simp [persist, setData]
  · rename_i hhead
    have hempty : s.index.heads l = 0 := by
      by_contra hne
      exact hhead (hheads ▸ (hI.head hne).isInitialized)
    refine hfinish _ (insertNode_spec hP hI halways hready hlocked hheads htails rfl ?_ loc)
    exact fun hne => absurd hempty hne

/-! ### Opening the index again -/

def reopen (currentEntryId : ℤ) (index : Index) : Index := (Rankings.init currentEntryId index).index

theorem reopen_idle (id : ℤ) (h : J.transaction = 0) : reopen id J = J := by
  dsimp only [reopen, Rankings.init]
  rw [if_neg (not_not_intro h)]

/-- `CompleteTransaction` has loaded the node. -/
structure Recovering (J : Index) (l : RankingsList) (n : CacheAddr) (s : Rankings) : Prop where
  heads : s.heads = J.heads
  tails : s.tails = J.tails
  isOpen : ∀ a, s.isOpen a = false
  index : SamePtrs J s.index
  operationList : s.index.operationList = l
  links : SameLinks (s.mem (.own .node)) (J.nodes n)

theorem reopen_locked (id : ℤ) {op : Operation} (hlocked : Locked op n l J) (hn : RankingsAddr n) :
    ∃ s, Recovering J l n s ∧ (op = .INSERT → reopen id J = (s.finishInsert n).index) ∧
      (op = .REMOVE → reopen id J = (s.revertRemove n).index) := by
  obtain ⟨rfl, rfl, rfl⟩ := hlocked
  let s : Rankings := ⟨J.heads, J.tails, fun _ => ⟨0, 0, 0, 0⟩, fun _ => false, id, J, []⟩
  have hreopen : reopen id J = s.completeTransaction.index := by
    dsimp only [reopen, Rankings.init]
    rw [if_pos hn.ne_zero]
  have haddr : ¬(J.transaction.isInitialized = false ∨ J.transaction.isSeparateFile = true) := by
    simp [hn.isInitialized, hn.isSeparateFile]
  let t := (s.load .node J.transaction).setData (.own .node)
    { (s.load .node J.transaction).mem (.own .node) with dummy := 0 }
  have hlinks : SameLinks (t.mem (.own .node)) (J.nodes J.transaction) := by
    constructor <;> simp [t, s, load, setData]
  dsimp only [completeTransaction] at hreopen
  rw [if_neg haddr] at hreopen
  refine ⟨t.store J.transaction (.own .node), ⟨rfl, rfl, fun _ => rfl, .store hlinks, rfl, hlinks⟩,
    fun hop => ?_, fun hop => ?_⟩
  · rw [hreopen]
    split
    · rfl
    · rename_i h
      exact nomatch h.symm.trans hop
    · rename_i h
      exact nomatch h.symm.trans hop
  · rw [hreopen]
    split
    · rename_i h
      exact nomatch h.symm.trans hop
    · rfl
    · rename_i h
      exact nomatch h.symm.trans hop

theorem CanInsert.ready (hI : CanInsert I l n) (h : Ready I l n J) : CanInsert J l n := by
  have hhead := congrFun h.heads l
  have hnext := h.next _ hI.head_ne
  refine ⟨hI.node, ?_, ?_, ?_, ?_, ?_, ?_, ?_⟩
  · intro hempty
    rcases h.tails with ht | ⟨-, ht⟩
    · rw [ht]
      exact hI.empty (hhead ▸ hempty)
    · exact .inr (by rw [ht, update_self])
  · rw [hhead]
    exact hI.head
  · rw [hhead]
    exact hI.head_ne
  · rw [hhead, hnext]
    exact hI.headNext
  · rw [hhead]
    intro hne
    rcases h.prev _ hI.head_ne with hp | ⟨-, hp⟩
    · rw [hp]
      exact hI.headPrev hne
    · exact .inr hp
  · rw [hhead, hnext]
    intro hne
    rw [h.tails.resolve_right fun ht => hne ht.1]
    exact hI.headTail hne
  · rw [hhead]
    intro hne
    rw [h.tails.resolve_right fun ht => hne ht.1]
    exact hI.tail hne

theorem finishInsert_ready (hI : CanInsert I l n) (hJ : Ready I l n J) (hs : Recovering J l n s) :
    Inserted I l n (s.finishInsert n).index := by
  have hlist := hs.operationList
  have hsame : SamePtrs J ((s.setTransaction 0).setOperation .none).index :=
    hs.index.trans ⟨rfl, rfl, fun _ => rfl, fun _ => rfl⟩
  have hne : s.heads l ≠ n := by
    rw [hs.heads, hJ.heads]
    exact hI.head_ne
  have hinsert (S : Rankings) (hindex : S.index = ((s.setTransaction 0).setOperation .none).index)
      (hheads : S.heads = s.heads) (htails : S.tails = s.tails) (hopen : S.isOpen = s.isOpen) :
      Inserted I l n (S.insert n (.own .node) l).index := by
    have hready : Ready I l n S.index := by
      rw [hindex]
      exact hJ.congr hsame
    refine hready.trans_inserted (insert_spec (fun _ _ => trivial) (hI.ready hready)
      (P := fun _ => True) ⟨trivial, fun _ _ => trivial⟩ ?_ ?_ ?_ ?_ (.own .node)).2.1
    · rw [hindex]
      rfl
    · rw [hheads, hs.heads, hindex, hsame.heads]
    · rw [htails, hs.tails, hindex, hsame.tails]
    · rw [hopen, hs.isOpen]
      nofun
  dsimp only [finishInsert]
  split
  · split
    all_goals rw [show ((s.setTransaction 0).setOperation .none).index.operationList = l from hlist]
    · exact hinsert _ rfl rfl rfl rfl
    · exact hinsert _ rfl rfl rfl rfl
  · rename_i hhead
    exact absurd hne (hlist ▸ hhead)

theorem finishInsert_inserted (hJ : Inserted I l n J) (hs : Recovering J l n s) :
    Inserted I l n (s.finishInsert n).index := by
  have hhead : s.heads l = n := by rw [hs.heads, hJ.heads, update_self]
  dsimp only [finishInsert]
  rw [if_neg]
  · exact hJ.congr (hs.index.trans ⟨rfl, rfl, fun _ => rfl, fun _ => rfl⟩)
  · exact not_not_intro (hs.operationList ▸ hhead)

/-- **After an insertion that was cut short**: the lists are as before, or the node is the head. -/
theorem InsertStage.reopen (hI : CanInsert I l n) (h : InsertStage I l n J) (id : ℤ) :
    SamePtrs I (reopen id J) ∨ Inserted I l n (reopen id J) := by
  cases h with
  | start same idle =>
    rw [reopen_idle id idle]
    exact .inl same
  | running ready locked =>
    obtain ⟨s, hs, hinsert, -⟩ := reopen_locked id locked hI.node
    rw [hinsert rfl]
    exact .inr (finishInsert_ready hI ready hs)
  | done inserted idle =>
    rcases idle with idle | locked
    · rw [reopen_idle id idle]
      exact .inr inserted
    · obtain ⟨s, hs, hinsert, -⟩ := reopen_locked id locked hI.node
      rw [hinsert rfl]
      exact .inr (finishInsert_inserted inserted hs)

/-! ### The lists after an insertion -/

theorem canInsert_of_indexOk (h : IndexOk I lists) (hn : RankingsAddr n) (hfresh : n ∉ lists l) :
    CanInsert I l n := by
  have hlist := h.list l
  generalize lists l = xs at hlist hfresh
  cases xs with
  | nil =>
    have hhead : I.heads l = 0 := hlist.head
    have htail : I.tails l = 0 := hlist.tail
    refine ⟨hn, fun _ => .inl htail, fun hne => absurd hhead hne, ?_, fun hne => absurd hhead hne,
      fun hne => absurd hhead hne, fun hne => absurd hhead hne, fun hne => absurd hhead hne⟩
    rw [hhead]
    exact hn.ne_zero.symm
  | cons a post =>
    have hhead : I.heads l = a := hlist.head
    have hmem : Member I l a := (show ListOk I l ([] ++ a :: post) from hlist).member
    have htail : I.tails l ∈ a :: post := by
      rw [hlist.tail, List.getLast?_eq_some_getLast (List.cons_ne_nil a post)]
      exact List.getLast_mem _
    have hne (b : CacheAddr) (hb : b ∈ a :: post) : b ≠ n := fun he => hfresh (he ▸ hb)
    refine ⟨hn, fun h0 => absurd h0 (hhead ▸ hmem.valid.ne_zero), ?_, ?_, ?_, ?_, ?_, ?_⟩
    · exact fun _ => hmem.validHead
    · rw [hhead]
      exact hne a mem_cons_self
    · rw [hhead]
      exact fun _ => hmem.validNext
    · rw [hhead]
      exact fun _ => .inl (hmem.head_iff.1 hhead)
    · rw [hhead]
      exact fun _ => hmem.tail_iff.2
    · exact fun _ => ⟨hmem.validTail, hne _ htail⟩

theorem indexOk_inserted (h : IndexOk I lists) (hn : RankingsAddr n)
    (hfresh : ∀ list, n ∉ lists list) (hJ : Inserted I l n J) :
    IndexOk J (update lists l (n :: lists l)) := by
  have hother (a : CacheAddr) (list : RankingsList) (ha : a ∈ lists list) : a ≠ n :=
    fun he => hfresh list (he ▸ ha)
  have hempty : I.heads l = 0 ↔ lists l = [] := by
    have hhead := (h.list l).head
    refine ⟨fun h0 => ?_, fun h0 => by rw [hhead, h0]; rfl⟩
    cases hxs : lists l with
    | nil => rfl
    | cons a post =>
      rw [hxs] at hhead
      refine absurd (hhead.symm.trans h0) ((h.list l).valid a ?_).ne_zero
      exact hxs ▸ mem_cons_self
  have hmem (hne : lists l ≠ []) : I.heads l ∈ lists l := by
    rw [(h.list l).head, List.head?_eq_some_head hne]
    exact List.head_mem hne
  refine ⟨fun list => ?_, fun list list' hne => ?_⟩
  · obtain ⟨hhead, htail, hvalid, hnodup, hlinks⟩ := h.list list
    by_cases hl : list = l
    · subst hl
      rw [update_self]
      refine ⟨?_, ?_, List.forall_mem_cons.2 ⟨hn, hvalid⟩, nodup_cons.2 ⟨hfresh list, hnodup⟩, ?_⟩
      · rw [hJ.heads, update_self]
        rfl
      · rw [hJ.tails]
        split
        · rename_i h0
          rw [hempty.1 h0, update_self]
          rfl
        · rename_i h0
          have hne : lists list ≠ [] := fun he => h0 (hempty.2 he)
          rw [htail]
          obtain ⟨a, post, hxs⟩ := exists_cons_of_ne_nil hne
          rw [hxs, List.getLast?_cons_cons]
      · refine hlinks.cons (hfresh list) hJ.nodePrev ?_ ?_ (fun a ha => hJ.next a (hother a list ha)) ?_
        · rw [hJ.nodeNext]
          split
          · rename_i h0
            rw [hempty.1 h0]
            rfl
          · rename_i h0
            obtain ⟨a, post, hxs⟩ := exists_cons_of_ne_nil fun he => h0 (hempty.2 he)
            rw [hhead, hxs]
            rfl
        · intro a ha
          have hmema := List.mem_of_mem_head? ha
          rw [hJ.prev a (hother a list hmema) (hvalid a hmema).ne_zero, if_pos]
          rw [hhead, Option.mem_def.1 ha]
          rfl
        · intro a ha
          have hmema := List.mem_of_mem_tail ha
          rw [hJ.prev a (hother a list hmema) (hvalid a hmema).ne_zero, if_neg]
          rw [hhead]
          obtain ⟨b, post, hxs⟩ := exists_cons_of_ne_nil (List.ne_nil_of_mem hmema)
          rw [hxs] at ha hnodup ⊢
          intro he
          obtain rfl : a = b := he
          exact (nodup_cons.1 hnodup).1 ha
    · rw [update_of_ne hl]
      refine ⟨?_, ?_, hvalid, hnodup, hlinks.congr fun a ha => ?_⟩
      · rw [hJ.heads, update_of_ne hl]
        exact hhead
      · rw [hJ.tails]
        split
        · rw [update_of_ne hl]
          exact htail
        · exact htail
      · refine ⟨hJ.next a (hother a list ha), ?_⟩
        rw [hJ.prev a (hother a list ha) (hvalid a ha).ne_zero, if_neg]
        intro he
        have hne : lists l ≠ [] := fun hnil => (hvalid a ha).ne_zero (he.trans (hempty.2 hnil))
        exact h.disjoint list l hl ha (he ▸ hmem hne)
  · have hdisjoint := h.disjoint list list' hne
    by_cases hl : list = l
    · subst hl
      rw [update_self, update_of_ne (Ne.symm hne)]
      exact List.disjoint_cons_left.2 ⟨hfresh list', hdisjoint⟩
    · rw [update_of_ne hl]
      by_cases hl' : list' = l
      · subst hl'
        rw [update_self]
        exact List.disjoint_cons_right.2 ⟨hfresh list, hdisjoint⟩
      · rw [update_of_ne hl']
        exact hdisjoint

/-! ### A removal -/

def newNext (I : Index) (r : CacheAddr) : CacheAddr :=
  if (I.nodes r).next = r then (I.nodes r).prev else (I.nodes r).next

def newPrev (I : Index) (r : CacheAddr) : CacheAddr :=
  if (I.nodes r).prev = r then (I.nodes r).next else (I.nodes r).prev

def newHeads (I : Index) (l : RankingsList) (r : CacheAddr) : RankingsList → CacheAddr :=
  if (I.nodes r).prev = r then
    Function.update I.heads l (if (I.nodes r).next = r then 0 else (I.nodes r).next)
  else I.heads

def newTails (I : Index) (l : RankingsList) (r : CacheAddr) : RankingsList → CacheAddr :=
  if (I.nodes r).next = r then
    Function.update I.tails l (if (I.nodes r).prev = r then 0 else (I.nodes r).prev)
  else I.tails

/-- Some of the stores of a removal are done. -/
structure Partial (I : Index) (l : RankingsList) (r : CacheAddr) (J : Index) : Prop where
  heads : J.heads = I.heads ∨ J.heads = newHeads I l r
  tails : J.tails = I.tails ∨ J.tails = newTails I l r
  next : ∀ a, a ≠ r → (J.nodes a).next = (I.nodes a).next ∨ a = (I.nodes r).prev ∧ (J.nodes a).next = newNext I r
  prev : ∀ a, a ≠ r → (J.nodes a).prev = (I.nodes a).prev ∨ a = (I.nodes r).next ∧ (J.nodes a).prev = newPrev I r

/-- A removal that can be undone: the removed node still has its links. -/
structure Undoable (I : Index) (l : RankingsList) (r : CacheAddr) (J : Index) : Prop
    extends Partial I l r J where
  node : SameLinks (J.nodes r) (I.nodes r)

structure Removed (I : Index) (l : RankingsList) (r : CacheAddr) (J : Index) : Prop where
  heads : J.heads = newHeads I l r
  tails : J.tails = newTails I l r
  next : ∀ a, a ≠ r → (J.nodes a).next = if a = (I.nodes r).prev then newNext I r else (I.nodes a).next
  prev : ∀ a, a ≠ r → (J.nodes a).prev = if a = (I.nodes r).next then newPrev I r else (I.nodes a).prev
  nodeNext : (J.nodes r).next = 0
  nodePrev : (J.nodes r).prev = 0

inductive RemoveStage (I : Index) (l : RankingsList) (r : CacheAddr) (J : Index) : Prop
  | start (same : SamePtrs I J) (idle : J.transaction = 0)
  | running (undoable : Undoable I l r J) (locked : Locked .REMOVE r l J)
  | done (removed : Removed I l r J) (idle : J.transaction = 0 ∨ Locked .REMOVE r l J)

theorem Undoable.congr (h : Undoable I l r J) (hsame : SamePtrs J K) : Undoable I l r K where
  heads := by
    rw [hsame.heads]
    exact h.heads
  tails := by
    rw [hsame.tails]
    exact h.tails
  next a ha := by
    rw [hsame.next]
    exact h.next a ha
  prev a ha := by
    rw [hsame.prev]
    exact h.prev a ha
  node := ⟨(hsame.next r).trans h.node.next, (hsame.prev r).trans h.node.prev⟩

theorem Removed.congr (h : Removed I l r J) (hsame : SamePtrs J K) : Removed I l r K where
  heads := hsame.heads.trans h.heads
  tails := hsame.tails.trans h.tails
  next a ha := (hsame.next a).trans (h.next a ha)
  prev a ha := (hsame.prev a).trans (h.prev a ha)
  nodeNext := (hsame.next r).trans h.nodeNext
  nodePrev := (hsame.prev r).trans h.nodePrev

/-- All that a removal changes is stored, the node apart. -/
structure Finished (I : Index) (l : RankingsList) (r : CacheAddr) (J : Index) : Prop where
  heads : J.heads = newHeads I l r
  tails : J.tails = newTails I l r
  next : (I.nodes r).prev ≠ r → (J.nodes (I.nodes r).prev).next = newNext I r
  prev : (I.nodes r).next ≠ r → (J.nodes (I.nodes r).next).prev = newPrev I r

theorem Partial.removed (h : Partial I l r J) (hfinished : Finished I l r J)
    (hnode : SameLinks (J.nodes r) ⟨0, 0, 0, 0⟩) : Removed I l r J where
  heads := hfinished.heads
  tails := hfinished.tails
  next a ha := by
    split
    · rename_i he
      rw [he]
      exact hfinished.next (he ▸ ha)
    · rename_i he
      exact (h.next a ha).resolve_right fun hp => he hp.1
  prev a ha := by
    split
    · rename_i he
      rw [he]
      exact hfinished.prev (he ▸ ha)
    · rename_i he
      exact (h.prev a ha).resolve_right fun hp => he hp.1
  nodeNext := hnode.next
  nodePrev := hnode.prev

def NodeOk (I : Index) (l : RankingsList) (r : CacheAddr) (J : Index) : Prop :=
  SameLinks (J.nodes r) (I.nodes r) ∨ SameLinks (J.nodes r) ⟨0, 0, 0, 0⟩ ∧ Finished I l r J

theorem Partial.stage (h : Partial I l r J) (hnode : NodeOk I l r J) (hlocked : Locked .REMOVE r l J) :
    RemoveStage I l r J := by
  rcases hnode with hnode | ⟨hnode, hfinished⟩
  · exact .running ⟨h, hnode⟩ hlocked
  · exact .done (h.removed hfinished hnode) (.inr hlocked)

theorem Partial.store (h : Partial I l r J) (b : CacheAddr)
    (hnext : b ≠ r → data.next = (I.nodes b).next ∨ b = (I.nodes r).prev ∧ data.next = newNext I r)
    (hprev : b ≠ r → data.prev = (I.nodes b).prev ∨ b = (I.nodes r).next ∧ data.prev = newPrev I r) :
    Partial I l r { J with nodes := update J.nodes b data } where
  heads := h.heads
  tails := h.tails
  next a ha := by
    dsimp only
    by_cases he : a = b
    · rw [he, update_self]
      exact hnext (he ▸ ha)
    · rw [update_of_ne he]
      exact h.next a ha
  prev a ha := by
    dsimp only
    by_cases he : a = b
    · rw [he, update_self]
      exact hprev (he ▸ ha)
    · rw [update_of_ne he]
      exact h.prev a ha

theorem Partial.storeNext (h : Partial I l r J)
    (hdata : (I.nodes r).next ≠ r → data.next = (I.nodes (I.nodes r).next).next ∧ data.prev = newPrev I r) :
    Partial I l r { J with nodes := update J.nodes (I.nodes r).next data } :=
  h.store _ (fun hne => .inl (hdata hne).1) fun hne => .inr ⟨rfl, (hdata hne).2⟩

theorem Partial.storePrev (h : Partial I l r J)
    (hdata : (I.nodes r).prev ≠ r → data.next = newNext I r ∧ data.prev = (I.nodes (I.nodes r).prev).prev) :
    Partial I l r { J with nodes := update J.nodes (I.nodes r).prev data } :=
  h.store _ (fun hne => .inr ⟨rfl, (hdata hne).1⟩) fun hne => .inl (hdata hne).2

theorem Partial.storeNode (h : Partial I l r J) (data : RankingsNode) :
    Partial I l r { J with nodes := update J.nodes r data } :=
  h.store r (absurd rfl) (absurd rfl)

/-- The memory of a removal before the three last stores; the removed node may share its memory with
a neighbour that it is itself. -/
structure RemoveMem (I : Index) (r : CacheAddr) (nextLoc prevLoc loc : Loc) (s : Rankings) : Prop where
  next : nextLoc ≠ loc → (s.mem nextLoc).next = (I.nodes (I.nodes r).next).next ∧ (s.mem nextLoc).prev = newPrev I r
  prev : prevLoc ≠ loc → (s.mem prevLoc).next = newNext I r ∧ (s.mem prevLoc).prev = (I.nodes (I.nodes r).prev).prev
  node : SameLinks (s.mem loc) ⟨0, 0, 0, 0⟩
  nextShared : nextLoc = loc → (I.nodes r).next = r
  prevShared : prevLoc = loc → (I.nodes r).prev = r

variable {nextLoc prevLoc : Loc} {P : Index → Prop}

theorem newPrev_of_next (h : (I.nodes r).next = r) : newPrev I r = (I.nodes r).prev := by
  unfold newPrev
  split
  · rename_i hp
    rw [h, hp]
  · rfl

theorem newNext_of_prev (h : (I.nodes r).prev = r) : newNext I r = (I.nodes r).next := by
  unfold newNext
  split
  · rename_i hn
    rw [h, hn]
  · rfl

/-- A removal before one of the three last stores. -/
structure Removing (P : Index → Prop) (I : Index) (l : RankingsList) (r : CacheAddr)
    (nextLoc prevLoc loc : Loc) (s : Rankings) : Prop where
  always : Always P s
  locked : Locked .REMOVE r l s.index
  part : Partial I l r s.index
  node : NodeOk I l r s.index
  heads : s.index.heads = newHeads I l r
  tails : s.index.tails = newTails I l r
  mem : RemoveMem I r nextLoc prevLoc loc s

theorem Removing.store {address : CacheAddr} {data : Loc} (h : Removing P I l r nextLoc prevLoc loc s)
    (hP : ∀ J, RemoveStage I l r J → P J) (hpart : Partial I l r (s.store address data).index)
    (hnode : NodeOk I l r (s.store address data).index) :
    Removing P I l r nextLoc prevLoc loc (s.store address data) := by
  have hlocked : Locked .REMOVE r l (s.store address data).index := h.locked.congr rfl rfl rfl
  refine ⟨h.always.persist (hP _ (hpart.stage hnode hlocked)), hlocked, hpart, hnode, h.heads, h.tails, ?_⟩
  exact ⟨h.mem.next, h.mem.prev, h.mem.node, h.mem.nextShared, h.mem.prevShared⟩

theorem Removing.storeNext (h : Removing P I l r nextLoc prevLoc loc s)
    (hP : ∀ J, RemoveStage I l r J → P J) (hnode : SameLinks (s.index.nodes r) (I.nodes r))
    (hprev : (I.nodes r).next = r → (I.nodes r).prev ≠ r → (s.index.nodes (I.nodes r).prev).next = newNext I r) :
    Removing P I l r nextLoc prevLoc loc (s.store (I.nodes r).next nextLoc) ∧ ((I.nodes r).next ≠ r →
        ((s.store (I.nodes r).next nextLoc).index.nodes (I.nodes r).next).prev = newPrev I r) := by
  have hpart : Partial I l r (s.store (I.nodes r).next nextLoc).index :=
    h.part.storeNext fun hn => h.mem.next fun he => hn (h.mem.nextShared he)
  have hnodeOk : NodeOk I l r (s.store (I.nodes r).next nextLoc).index := by
    by_cases hn : (I.nodes r).next = r
    · have hdata : (s.store (I.nodes r).next nextLoc).index.nodes r = s.mem nextLoc := by
        rw [hn, store_nodes_self]
      rw [NodeOk, hdata]
      by_cases hloc : nextLoc = loc
      · refine .inr ⟨hloc ▸ h.mem.node, ⟨h.heads, h.tails, fun hp => ?_, fun hn' => absurd hn hn'⟩⟩
        rw [hn, store_nodes_of_ne hp]
        exact hprev hn hp
      · obtain ⟨h1, h2⟩ := h.mem.next hloc
        exact .inl ⟨h1.trans (by rw [hn, hn]), h2.trans (newPrev_of_next hn)⟩
    · refine .inl ?_
      rw [store_nodes_of_ne (Ne.symm hn)]
      exact hnode
  refine ⟨h.store hP hpart hnodeOk, fun hn => ?_⟩
  rw [store_nodes_self]
  exact (h.mem.next fun he => hn (h.mem.nextShared he)).2

theorem Removing.storePrev (h : Removing P I l r nextLoc prevLoc loc s) (hm : Member I l r)
    (hP : ∀ J, RemoveStage I l r J → P J)
    (hnext : (I.nodes r).next ≠ r → (s.index.nodes (I.nodes r).next).prev = newPrev I r) :
    Removing P I l r nextLoc prevLoc loc (s.store (I.nodes r).prev prevLoc) ∧
      Finished I l r (s.store (I.nodes r).prev prevLoc).index := by
  have hpart : Partial I l r (s.store (I.nodes r).prev prevLoc).index :=
    h.part.storePrev fun hp => h.mem.prev fun he => hp (h.mem.prevShared he)
  have hfinished : Finished I l r (s.store (I.nodes r).prev prevLoc).index := by
    refine ⟨h.heads, h.tails, fun hp => ?_, fun hn => ?_⟩
    · rw [store_nodes_self]
      exact (h.mem.prev fun he => hp (h.mem.prevShared he)).1
    · have hne : (I.nodes r).next ≠ (I.nodes r).prev := fun he => hm.ne (he ▸ hn) he.symm
      rw [store_nodes_of_ne hne]
      exact hnext hn
  refine ⟨h.store hP hpart ?_, hfinished⟩
  by_cases hp : (I.nodes r).prev = r
  · have hdata : (s.store (I.nodes r).prev prevLoc).index.nodes r = s.mem prevLoc := by
      rw [hp, store_nodes_self]
    rw [NodeOk, hdata]
    by_cases hloc : prevLoc = loc
    · exact .inr ⟨hloc ▸ h.mem.node, hfinished⟩
    · obtain ⟨h1, h2⟩ := h.mem.prev hloc
      exact .inl ⟨h1.trans (newNext_of_prev hp), h2.trans (by rw [hp, hp])⟩
  · have hdata : (s.store (I.nodes r).prev prevLoc).index.nodes r = s.index.nodes r := by
      rw [store_nodes_of_ne (Ne.symm hp)]
    rw [NodeOk, hdata]
    exact h.node.imp_right fun hzero => ⟨hzero.1, hfinished⟩

theorem Removing.storeNode (h : Removing P I l r nextLoc prevLoc loc s)
    (hP : ∀ J, RemoveStage I l r J → P J) (hfinished : Finished I l r s.index) :
    Always P (s.store r loc) ∧ Removed I l r (s.store r loc).index := by
  have hpart : Partial I l r (s.store r loc).index := h.part.storeNode _
  have hzero : SameLinks ((s.store r loc).index.nodes r) ⟨0, 0, 0, 0⟩ := by
    rw [store_nodes_self]
    exact h.mem.node
  have hfinished' : Finished I l r (s.store r loc).index := by
    refine ⟨h.heads, h.tails, fun hp => ?_, fun hn => ?_⟩
    · rw [store_nodes_of_ne hp]
      exact hfinished.next hp
    · rw [store_nodes_of_ne hn]
      exact hfinished.prev hn
  exact ⟨(h.store hP hpart (.inr ⟨hzero, hfinished'⟩)).always, hpart.removed hfinished' hzero⟩

/-- The neighbours of the removed node in memory, with one link each to be changed. -/
structure Neighbours (I : Index) (r : CacheAddr) (nextLoc prevLoc : Loc) (next prev : CacheAddr)
    (s : Rankings) : Prop where
  behind : SameLinks (s.mem nextLoc) ⟨(I.nodes (I.nodes r).next).next, prev, 0, 0⟩
  before : SameLinks (s.mem prevLoc) ⟨next, (I.nodes (I.nodes r).prev).prev, 0, 0⟩
  shared : nextLoc = prevLoc → (I.nodes r).next = r ∧ (I.nodes r).prev = r

variable {next prev : CacheAddr}

theorem Neighbours.setNext (h : Neighbours I r nextLoc prevLoc next prev s) (value : CacheAddr)
    (hvalue : (I.nodes r).next = r → (I.nodes r).prev = r → value = r) :
    Neighbours I r nextLoc prevLoc value prev
      (s.setData prevLoc { s.mem prevLoc with next := value }) := by
  refine ⟨?_, ?_, h.shared⟩
  · by_cases hloc : nextLoc = prevLoc
    · obtain ⟨hn, hp⟩ := h.shared hloc
      refine ⟨?_, ?_⟩
      all_goals simp only [setData, hloc, update_self]
      · rw [hvalue hn hp, hn, hn]
      · rw [← hloc]
        exact h.behind.prev
    · simp only [setData]
      rw [update_of_ne hloc]
      exact h.behind
  · simp only [setData, update_self]
    exact ⟨rfl, h.before.prev⟩

theorem Neighbours.setPrev (h : Neighbours I r nextLoc prevLoc next prev s) (value : CacheAddr)
    (hvalue : (I.nodes r).next = r → (I.nodes r).prev = r → value = r) :
    Neighbours I r nextLoc prevLoc next value
      (s.setData nextLoc { s.mem nextLoc with prev := value }) := by
  refine ⟨?_, ?_, h.shared⟩
  · simp only [setData, update_self]
    exact ⟨h.behind.next, rfl⟩
  · by_cases hloc : prevLoc = nextLoc
    · obtain ⟨hn, hp⟩ := h.shared hloc.symm
      refine ⟨?_, ?_⟩
      all_goals simp only [setData, hloc, update_self]
      · rw [← hloc]
        exact h.before.next
      · rw [hvalue hn hp, hp, hp]
    · simp only [setData]
      rw [update_of_ne hloc]
      exact h.before

theorem Partial.writeHeads (h : Partial I l r J) : Partial I l r { J with heads := newHeads I l r } :=
  ⟨.inr rfl, h.tails, h.next, h.prev⟩

theorem Partial.writeTails (h : Partial I l r J) : Partial I l r { J with tails := newTails I l r } :=
  ⟨h.heads, .inr rfl, h.next, h.prev⟩

/-- The transaction of a removal has begun, and the node is still as it was. -/
structure Begun (P : Index → Prop) (I : Index) (l : RankingsList) (r : CacheAddr) (s : Rankings) :
    Prop where
  always : Always P s
  locked : Locked .REMOVE r l s.index
  part : Partial I l r s.index
  node : SameLinks (s.index.nodes r) (I.nodes r)

theorem Begun.persist (h : Begun P I l r s) (hP : ∀ J, RemoveStage I l r J → P J)
    (hpart : Partial I l r J) (hlocked : Locked .REMOVE r l J)
    (hnode : SameLinks (J.nodes r) (I.nodes r)) : Begun P I l r (s.persist J) :=
  ⟨h.always.persist (hP J (hpart.stage (.inl hnode) hlocked)), hlocked, hpart, hnode⟩

theorem Begun.congr (h : Begun P I l r s) (hindex : s'.index = s.index) (hpast : s'.past = s.past) :
    Begun P I l r s' :=
  ⟨h.always.congr hindex hpast, hindex ▸ h.locked, hindex ▸ h.part, hindex ▸ h.node⟩

theorem Begun.writeHead (h : Begun P I l r s) (hP : ∀ J, RemoveStage I l r J → P J)
    (hheads : update s.index.heads l (s.heads l) = newHeads I l r) :
    Begun P I l r (s.writeHead l) ∧ (s.writeHead l).index.heads = newHeads I l r := by
  refine ⟨?_, hheads⟩
  rw [Rankings.writeHead, hheads]
  exact h.persist hP h.part.writeHeads (h.locked.congr rfl rfl rfl) h.node

theorem Begun.writeTail (h : Begun P I l r s) (hP : ∀ J, RemoveStage I l r J → P J)
    (htails : update s.index.tails l (s.tails l) = newTails I l r) :
    Begun P I l r (s.writeTail l) ∧ (s.writeTail l).index.tails = newTails I l r := by
  refine ⟨?_, htails⟩
  rw [Rankings.writeTail, htails]
  exact h.persist hP h.part.writeTails (h.locked.congr rfl rfl rfl) h.node

theorem Begun.finish (h : Begun P I l r s) (hm : Member I l r) (hP : ∀ J, RemoveStage I l r J → P J)
    (hmem : Neighbours I r nextLoc prevLoc (newNext I r) (newPrev I r) s)
    (hnextLoc : nextLoc = loc → (I.nodes r).next = r)
    (hprevLoc : prevLoc = loc → (I.nodes r).prev = r)
    (hheads : s.index.heads = newHeads I l r) (htails : s.index.tails = newTails I l r)
    (hprev : (I.nodes r).next = r → (I.nodes r).prev ≠ r → (s.index.nodes (I.nodes r).prev).next = newNext I r) :
    Always P (((((s.setData loc { s.mem loc with next := 0, prev := 0 }).store (I.nodes r).next
      nextLoc).store (I.nodes r).prev prevLoc).store r loc).endTransaction) ∧
    Removed I l r (((((s.setData loc { s.mem loc with next := 0, prev := 0 }).store (I.nodes r).next
      nextLoc).store (I.nodes r).prev prevLoc).store r loc).endTransaction).index := by
  have hother (loc' : Loc) (hloc : loc' ≠ loc) :
      (s.setData loc { s.mem loc with next := 0, prev := 0 }).mem loc' = s.mem loc' :=
    update_of_ne hloc _ _
  have hstart : Removing P I l r nextLoc prevLoc loc
      (s.setData loc { s.mem loc with next := 0, prev := 0 }) := by
    refine ⟨h.always.congr rfl rfl, h.locked, h.part, .inl h.node, hheads, htails,
      ⟨fun hloc => ?_, fun hloc => ?_, ?_, hnextLoc, hprevLoc⟩⟩
    · rw [hother _ hloc]
      exact ⟨hmem.behind.next, hmem.behind.prev⟩
    · rw [hother _ hloc]
      exact ⟨hmem.before.next, hmem.before.prev⟩
    · simp only [setData, update_self]
      exact ⟨rfl, rfl⟩
  obtain ⟨h1, hnext⟩ := hstart.storeNext hP h.node hprev
  obtain ⟨h2, hfinished⟩ := h1.storePrev hm hP hnext
  obtain ⟨h3, hremoved⟩ := h2.storeNode hP hfinished
  obtain ⟨hend, hsame, -⟩ := endTransaction_spec h3 fun J hJ hidle =>
    hP J (.done (hremoved.congr hJ) (.inl hidle))
  exact ⟨hend, hremoved.congr hsame⟩

/-- What `removeEnds` leaves to be done. -/
structure EndsDone (P : Index → Prop) (I : Index) (l : RankingsList) (r : CacheAddr)
    (nextLoc prevLoc : Loc) (s : Rankings) : Prop where
  begun : Begun P I l r s
  mem : Neighbours I r nextLoc prevLoc (newNext I r) (newPrev I r) s
  heads : s.index.heads = newHeads I l r
  tails : s.index.tails = newTails I l r
  prev : (I.nodes r).next = r → (I.nodes r).prev ≠ r → (s.index.nodes (I.nodes r).prev).next = newNext I r

theorem removeEnds_spec (hm : Member I l r) (hP : ∀ J, RemoveStage I l r J → P J)
    (hmem : Neighbours I r nextLoc prevLoc (I.nodes r).next (I.nodes r).prev s)
    (h : Begun P I l r s) (hheads : s.heads = I.heads) (htails : s.tails = I.tails)
    (hheads' : s.index.heads = I.heads) (htails' : s.index.tails = I.tails) :
    EndsDone P I l r nextLoc prevLoc
      (s.removeEnds r (I.nodes r).prev (I.nodes r).next prevLoc nextLoc l) := by
  have hcond : r = s.heads l ∨ r = s.tails l ↔ (I.nodes r).prev = r ∨ (I.nodes r).next = r := by
    rw [hheads, htails, eq_comm, hm.head_iff, eq_comm (a := r), hm.tail_iff]
  dsimp only [removeEnds]
  by_cases hp : (I.nodes r).prev = r
  · have hhead : s.heads l = r := by rw [hheads, hm.head_iff.2 hp]
    rw [if_pos (hcond.2 (.inl hp))]
    by_cases hn : (I.nodes r).next = r
    · -- the only node
      have htail : s.tails l = r := by rw [htails, hm.tail_iff.2 hn]
      rw [if_pos (hhead.trans htail.symm)]
      obtain ⟨h1, h1heads⟩ := Begun.writeHead (s := (s.setHead l 0).setTail l 0) (h.congr rfl rfl) hP
        (by simp [setHead, setTail, newHeads, hp, hn, hheads'])
      obtain ⟨h2, h2tails⟩ := h1.writeTail hP
        (by simp [writeHead, persist, setHead, setTail, newTails, hp, hn, htails'])
      refine ⟨h2, ?_, h1heads, h2tails, fun _ hp' => absurd hp hp'⟩
      rw [newNext_of_prev hp, newPrev_of_next hn]
      exact ⟨hmem.behind, hmem.before, hmem.shared⟩
    · -- the head
      have htail : s.tails l ≠ r := by
        rw [htails]
        exact fun ht => hn (hm.tail_iff.1 ht)
      rw [if_neg (fun he => htail (he.symm.trans hhead)), if_pos hhead.symm]
      have hset := Neighbours.setPrev (s := s.setHead l (I.nodes r).next)
        ⟨hmem.behind, hmem.before, hmem.shared⟩ (I.nodes r).next fun hn' _ => hn'
      obtain ⟨h1, h1heads⟩ := Begun.writeHead (s := (s.setHead l (I.nodes r).next).setData nextLoc
        { s.mem nextLoc with prev := (I.nodes r).next }) (h.congr rfl rfl) hP
        (by simp [setHead, setData, newHeads, hp, hn, hheads'])
      refine ⟨h1, ?_, h1heads, ?_, fun hn' => absurd hn' hn⟩
      · rw [newNext_of_prev hp, newPrev, if_pos hp]
        exact ⟨hset.behind, hset.before, hset.shared⟩
      · rw [newTails, if_neg hn]
        exact htails'
  · by_cases hn : (I.nodes r).next = r
    · -- the tail
      have hhead : s.heads l ≠ r := by
        rw [hheads]
        exact fun hh => hp (hm.head_iff.1 hh)
      have htail : s.tails l = r := by rw [htails, hm.tail_iff.2 hn]
      rw [if_pos (hcond.2 (.inr hn)), if_neg (fun he => hhead (he.trans htail)), if_neg (fun he => hhead he.symm)]
      have hnew : newNext I r = (I.nodes r).prev := by rw [newNext, if_pos hn]
      have hset := Neighbours.setNext (s := s.setTail l (I.nodes r).prev)
        ⟨hmem.behind, hmem.before, hmem.shared⟩ (I.nodes r).prev fun _ hp' => hp'
      obtain ⟨h1, h1tails⟩ := Begun.writeTail (s := (s.setTail l (I.nodes r).prev).setData prevLoc
        { s.mem prevLoc with next := (I.nodes r).prev }) (h.congr rfl rfl) hP
        (by simp [setTail, setData, newTails, hp, hn, htails'])
      refine ⟨h1.persist hP (h1.part.storePrev fun _ => ?_) (h1.locked.congr rfl rfl rfl) ?_, ?_, ?_,
        h1tails, fun _ _ => ?_⟩
      · rw [hnew]
        exact ⟨hset.before.next, hset.before.prev⟩
      · dsimp only
        rw [update_of_ne (Ne.symm hp)]
        exact h1.node
      · rw [hnew, newPrev_of_next hn]
        exact ⟨hset.behind, hset.before, hset.shared⟩
      · rw [newHeads, if_neg hp]
        exact hheads'
      · rw [hnew, store_nodes_self]
        exact hset.before.next
    · rw [if_neg]
      · refine ⟨h, ?_, ?_, ?_, fun hn' => absurd hn' hn⟩
        · unfold newNext newPrev
          rw [if_neg hn, if_neg hp]
          exact hmem
        · rw [hheads', newHeads, if_neg hp]
        · rw [htails', newTails, if_neg hn]
      · rw [hcond]
        exact fun hor => hor.elim hp hn

theorem removeNode_spec (hindex : s.index = I) (hm : Member I l r) (hP : ∀ J, RemoveStage I l r J → P J)
    (halways : Always P s) (hidle : I.transaction = 0) (hheads : s.heads = I.heads)
    (htails : s.tails = I.tails)
    (hmem : Neighbours I r nextLoc prevLoc (I.nodes (I.nodes r).prev).next
      (I.nodes (I.nodes r).next).prev s)
    (hnextLoc : nextLoc = loc → (I.nodes r).next = r)
    (hprevLoc : prevLoc = loc → (I.nodes r).prev = r) :
    Always P (s.removeNode r loc (I.nodes r).prev (I.nodes r).next prevLoc nextLoc l) ∧ Removed I l r
        (s.removeNode r loc (I.nodes r).prev (I.nodes r).next prevLoc nextLoc l).index := by
  subst hindex
  obtain ⟨halways₁, hsame, hlocked⟩ := beginTransaction_spec (n := r) (l := l) .REMOVE halways
    (fun J hJ hidle' => hP J (.start hJ (hidle'.trans hidle))) (fun J hJ hlocked => hP J
      (.running ⟨⟨.inl hJ.heads, .inl hJ.tails, fun a _ => .inl (hJ.next a),
        fun a _ => .inl (hJ.prev a)⟩, ⟨hJ.next r, hJ.prev r⟩⟩ hlocked))
  have hbegun : Begun P s.index l r (s.beginTransaction r .REMOVE l) :=
    ⟨halways₁, hlocked, ⟨.inl hsame.heads, .inl hsame.tails, fun a _ => .inl (hsame.next a),
      fun a _ => .inl (hsame.prev a)⟩, ⟨hsame.next r, hsame.prev r⟩⟩
  have hneighbours := (Neighbours.setNext (s := s.beginTransaction r .REMOVE l)
    ⟨hmem.behind, hmem.before, hmem.shared⟩ (s.index.nodes r).next fun hn _ => hn).setPrev
    (s.index.nodes r).prev fun _ hp => hp
  have hends := removeEnds_spec hm hP hneighbours (hbegun.congr rfl rfl) hheads htails hsame.heads
    hsame.tails
  exact hends.begun.finish hm hP hends.mem hnextLoc hprevLoc hends.heads hends.tails hends.prev

theorem isHead_eq (h : s.heads l = r) (hunique : ∀ l', s.heads l' = r → l' = l) :
    s.isHead r = some l := by
  obtain ⟨l', hl'⟩ := Option.isSome_iff_exists.1 (isHead_isSome h)
  have hfound := List.find?_some hl'
  rw [hl', hunique l' (by simpa using (of_decide_eq_true hfound).symm)]

theorem isTail_eq (h : s.tails l = r) (hunique : ∀ l', s.tails l' = r → l' = l) :
    s.isTail r = some l := by
  obtain ⟨l', hl'⟩ := Option.isSome_iff_exists.1 (isTail_isSome h)
  have hfound := List.find?_some hl'
  rw [hl', hunique l' (by simpa using (of_decide_eq_true hfound).symm)]

theorem checkLinks_spec (hm : Member I l r) (hheads : s.heads = I.heads) (htails : s.tails = I.tails)
    (hhead : ∀ l', I.heads l' = r → l' = l) (htail : ∀ l', I.tails l' = r → l' = l)
    (hmem : Neighbours I r nextLoc prevLoc (I.nodes (I.nodes r).prev).next
      (I.nodes (I.nodes r).next).prev s) (loc : Loc) :
    s.checkLinks r loc (I.nodes r).prev (I.nodes r).next prevLoc nextLoc l = (s, some l) := by
  have hnext : (s.mem prevLoc).next = (I.nodes (I.nodes r).prev).next := hmem.before.next
  have hprev : (s.mem nextLoc).prev = (I.nodes (I.nodes r).next).prev := hmem.behind.prev
  dsimp only [checkLinks]
  rw [hnext, hprev]
  by_cases hp : (I.nodes r).prev = r
  · by_cases hn : (I.nodes r).next = r
    · rw [if_pos ⟨by rw [hp, hn], by rw [hn, hp]⟩]
    · -- the head: only the link back leads to it
      have hback := hm.prev_next hn
      rw [if_neg, if_neg (fun h => h.1 hp.symm), if_pos (.inr hback), if_pos,
        isHead_eq (hheads ▸ hm.head_iff.2 hp) (hheads ▸ hhead)]
      · rwa [hp]
      · rw [hp]
        exact fun h => hn h.1
  · have hforth := hm.next_prev hp
    by_cases hn : (I.nodes r).next = r
    · -- the tail: only the link forward leads to it
      rw [if_neg, if_neg (fun h => h.2.1 hn.symm), if_pos (.inl hforth), if_neg (not_not_intro hforth),
        if_pos, isTail_eq (htails ▸ hm.tail_iff.2 hn) (htails ▸ htail)]
      · rwa [hn]
      · rw [hn]
        exact fun h => hp h.2
    · rw [if_pos ⟨hforth, hm.prev_next hn⟩]

/-- A process with an element of a list and its neighbours. -/
structure CanRemove (l : RankingsList) (r : CacheAddr) (loc : Loc) (s : Rankings) : Prop where
  member : Member s.index l r
  next : Member s.index l (s.index.nodes r).next
  prev : Member s.index l (s.index.nodes r).prev
  head : ∀ l', s.index.heads l' = r → l' = l
  tail : ∀ l', s.index.tails l' = r → l' = l
  heads : s.heads = s.index.heads
  tails : s.tails = s.index.tails
  openedNext : s.isOpen (s.index.nodes r).next = true →
    SameLinks (s.mem (.entry (s.index.nodes r).next)) (s.index.nodes (s.index.nodes r).next)
  openedPrev : s.isOpen (s.index.nodes r).prev = true →
    SameLinks (s.mem (.entry (s.index.nodes r).prev)) (s.index.nodes (s.index.nodes r).prev)
  node : SameLinks (s.mem loc) (s.index.nodes r)
  loc : loc = .own .node ∨ loc = .entry r

theorem Member.getRanking (hm : Member s.index l n) (slot : Slot) (hheads : s.heads = s.index.heads)
    (htails : s.tails = s.index.tails)
    (hopen : s.isOpen n = true → SameLinks (s.mem (.entry n)) (s.index.nodes n)) :
    ∃ s' loc, s.getRanking slot n = (s', some loc) ∧ SameStores s s' ∧
      (loc = .own slot ∨ loc = .entry n) ∧ SameLinks (s'.mem loc) (s.index.nodes n) ∧
      ∀ loc' ≠ .own slot, s'.mem loc' = s.mem loc' :=
  getRanking_spec slot hm.valid hm.validNext hm.validPrev
    (fun h => ⟨l, hheads ▸ hm.head_iff.2 h⟩) (fun h => ⟨l, htails ▸ hm.tail_iff.2 h⟩) hopen

theorem remove_spec (h : CanRemove l r loc s) (hP : ∀ J, RemoveStage s.index l r J → P J)
    (halways : Always P s) (hidle : s.index.transaction = 0) :
    Always P (s.remove r loc l) ∧ Removed s.index l r (s.remove r loc l).index := by
  have hnextAddr : (s.mem loc).next = (s.index.nodes r).next := h.node.next
  have hprevAddr : (s.mem loc).prev = (s.index.nodes r).prev := h.node.prev
  dsimp only [remove]
  rw [hnextAddr, hprevAddr, if_neg]
  swap
  · simp [h.member.validNext.isInitialized, h.member.validNext.isSeparateFile,
      h.member.validPrev.isInitialized, h.member.validPrev.isSeparateFile]
  obtain ⟨s₁, nextLoc, hget₁, hsame₁, hnextLoc, hlinks₁, hframe₁⟩ :=
    Member.getRanking h.next .next h.heads h.tails h.openedNext
  rw [hget₁]
  dsimp only
  have hentry₁ (a : CacheAddr) : s₁.mem (.entry a) = s.mem (.entry a) := hframe₁ _ (by simp)
  obtain ⟨s₂, prevLoc, hget₂, hsame₂, hprevLoc, hlinks₂, hframe₂⟩ :=
    Member.getRanking (s := s₁) (by rw [hsame₁.index]; exact h.prev) .prev
      (by rw [hsame₁.heads, hsame₁.index, h.heads]) (by rw [hsame₁.tails, hsame₁.index, h.tails])
      (by rw [hsame₁.isOpen, hsame₁.index, hentry₁]; exact h.openedPrev)
  rw [hget₂]
  dsimp only
  have hindex : s₂.index = s.index := hsame₂.index.trans hsame₁.index
  have hheads : s₂.heads = s.index.heads := by rw [hsame₂.heads, hsame₁.heads, h.heads]
  have htails : s₂.tails = s.index.tails := by rw [hsame₂.tails, hsame₁.tails, h.tails]
  have hmem : Neighbours s.index r nextLoc prevLoc (s.index.nodes (s.index.nodes r).prev).next
      (s.index.nodes (s.index.nodes r).next).prev s₂ := by
    refine ⟨?_, ?_, fun hshared => ?_⟩
    · rw [hframe₂ nextLoc (by rcases hnextLoc with rfl | rfl <;> simp)]
      exact ⟨hlinks₁.next, hlinks₁.prev⟩
    · rw [hsame₁.index] at hlinks₂
      exact ⟨hlinks₂.next, hlinks₂.prev⟩
    · have hsame : (s.index.nodes r).prev = (s.index.nodes r).next := by
        rcases hnextLoc with rfl | rfl <;> rcases hprevLoc with rfl | rfl <;> simp_all
      have hp : (s.index.nodes r).prev = r := by
        by_contra hp
        exact h.member.ne hp hsame
      exact ⟨hsame ▸ hp, hp⟩
  rw [checkLinks_spec h.member hheads htails h.head h.tail hmem]
  refine removeNode_spec hindex h.member hP (halways.congr hindex ?_) hidle hheads htails hmem ?_ ?_
  · exact hsame₂.past.trans hsame₁.past
  · intro he
    rcases hnextLoc with h1 | h1 <;> rcases h.loc with h2 | h2 <;> rw [h1, h2] at he <;> simp at he
    exact he
  · intro he
    rcases hprevLoc with h1 | h1 <;> rcases h.loc with h2 | h2 <;> rw [h1, h2] at he <;> simp at he
    exact he

/-! ### Undoing a removal -/

/-- The links of the neighbours in memory are those before the removal, and so are the links on disk
of all the other nodes. -/
structure Reverting (I : Index) (r : CacheAddr) (s : Rankings) : Prop where
  behind : SameLinks (s.mem (.own .next)) (I.nodes (I.nodes r).next)
  before : SameLinks (s.mem (.own .prev)) (I.nodes (I.nodes r).prev)
  next : ∀ a, a ≠ (I.nodes r).prev → (s.index.nodes a).next = (I.nodes a).next
  prev : ∀ a, a ≠ (I.nodes r).next → (s.index.nodes a).prev = (I.nodes a).prev

theorem Reverting.congr (h : Reverting I r s) (hmem : s'.mem = s.mem)
    (hnodes : s'.index.nodes = s.index.nodes) : Reverting I r s' := by
  refine ⟨?_, ?_, ?_, ?_⟩
  · rw [hmem]
    exact h.behind
  · rw [hmem]
    exact h.before
  · rw [hnodes]
    exact h.next
  · rw [hnodes]
    exact h.prev

theorem update_eq_of_eq {f g : RankingsList → CacheAddr} (hf : f l = r)
    (hg : g = f ∨ ∃ value, g = update f l value) : update g l r = f := by
  rcases hg with rfl | ⟨value, rfl⟩
  · rw [← hf, update_eq_self]
  · rw [update_idem, ← hf, update_eq_self]

theorem newHeads_eq : newHeads I l r = I.heads ∨ ∃ value, newHeads I l r = update I.heads l value := by
  unfold newHeads
  split
  · exact .inr ⟨_, rfl⟩
  · exact .inl rfl

theorem newTails_eq : newTails I l r = I.tails ∨ ∃ value, newTails I l r = update I.tails l value := by
  unfold newTails
  split
  · exact .inr ⟨_, rfl⟩
  · exact .inl rfl

theorem Reverting.setNext (h : Reverting I r s) {value : CacheAddr}
    (hvalue : value = (I.nodes (I.nodes r).prev).next) :
    Reverting I r (s.setData (.own .prev) { s.mem (.own .prev) with next := value }) := by
  refine ⟨?_, ?_, h.next, h.prev⟩
  · simp only [setData]
    rw [update_of_ne (by simp)]
    exact h.behind
  · simp only [setData, update_self]
    exact ⟨hvalue, h.before.prev⟩

theorem Reverting.setPrev (h : Reverting I r s) {value : CacheAddr}
    (hvalue : value = (I.nodes (I.nodes r).next).prev) :
    Reverting I r (s.setData (.own .next) { s.mem (.own .next) with prev := value }) := by
  refine ⟨?_, ?_, h.next, h.prev⟩
  · simp only [setData, update_self]
    exact ⟨h.behind.next, hvalue⟩
  · simp only [setData]
    rw [update_of_ne (by simp)]
    exact h.before

/-- **The head and the tail are restored**, whichever of them had moved. -/
theorem revertEnds_spec (hm : Member I l r) (h : Reverting I r s) (hheads : s.heads = s.index.heads)
    (htails : s.tails = s.index.tails)
    (hheads' : s.index.heads = I.heads ∨ s.index.heads = newHeads I l r)
    (htails' : s.index.tails = I.tails ∨ s.index.tails = newTails I l r) :
    Reverting I r (s.revertEnds r (I.nodes r).prev (I.nodes r).next l) ∧
      (s.revertEnds r (I.nodes r).prev (I.nodes r).next l).index.heads = I.heads ∧
      (s.revertEnds r (I.nodes r).prev (I.nodes r).next l).index.tails = I.tails := by
  have hheadsEq : s.index.heads = I.heads ∨ ∃ value, s.index.heads = update I.heads l value :=
    hheads'.elim .inl fun he => he ▸ newHeads_eq
  have htailsEq : s.index.tails = I.tails ∨ ∃ value, s.index.tails = update I.tails l value :=
    htails'.elim .inl fun he => he ▸ newTails_eq
  dsimp only [revertEnds]
  rw [hheads, htails]
  by_cases hp : (I.nodes r).prev = r
  · have hhead := hm.head_iff.2 hp
    by_cases hn : (I.nodes r).next = r
    · -- the only node
      have htail := hm.tail_iff.2 hn
      split
      · refine ⟨h.congr rfl rfl, ?_, ?_⟩
        · simp [writeHead, writeTail, persist, setHead, setTail, update_eq_of_eq hhead hheadsEq]
        · simp [writeHead, writeTail, persist, setHead, setTail, update_eq_of_eq htail htailsEq]
      · rename_i hinit
        rw [not_or] at hinit
        have hsame : s.index.heads = I.heads := hheads'.resolve_right fun he =>
          hinit.1 (by rw [he, newHeads, if_pos hp, if_pos hn, update_self]; decide)
        have hsame' : s.index.tails = I.tails := htails'.resolve_right fun he =>
          hinit.2 (by rw [he, newTails, if_pos hp, if_pos hn, update_self]; decide)
        rw [if_pos (by rw [hsame, hhead, hn])]
        refine ⟨(Reverting.setNext (s := s.setHead l r) (h.congr rfl rfl) (by rw [hp])).congr rfl rfl, ?_, hsame'⟩
        simp [writeHead, persist, setHead, setData, update_eq_of_eq hhead hheadsEq]
    · -- the head
      have hsame' : s.index.tails = I.tails := htails'.elim id fun he => by rw [he, newTails, if_neg hn]
      have hvalid : RankingsAddr (s.index.heads l) := by
        rcases hheads' with he | he
        · rw [he]
          exact hm.validHead
        · rw [he, newHeads, if_pos hp, if_neg hn, update_self]
          exact hm.validNext
      rw [if_neg (by simp [hvalid.isInitialized, hsame', hm.validTail.isInitialized])]
      split
      · refine ⟨(Reverting.setNext (s := s.setHead l r) (h.congr rfl rfl) (by rw [hp])).congr rfl rfl,
          ?_, hsame'⟩
        simp [writeHead, persist, setHead, setData, update_eq_of_eq hhead hheadsEq]
      · rename_i hne
        rw [if_neg (by rw [hsame', hp]; exact fun ht => hn (hm.tail_iff.1 ht))]
        refine ⟨h, hheads'.resolve_right fun he => hne ?_, hsame'⟩
        rw [he, newHeads, if_pos hp, if_neg hn, update_self]
  · have hsame : s.index.heads = I.heads := hheads'.elim id fun he => by rw [he, newHeads, if_neg hp]
    by_cases hn : (I.nodes r).next = r
    · -- the tail
      have htail := hm.tail_iff.2 hn
      have hvalid : RankingsAddr (s.index.tails l) := by
        rcases htails' with he | he
        · rw [he]
          exact hm.validTail
        · rw [he, newTails, if_pos hn, if_neg hp, update_self]
          exact hm.validPrev
      rw [if_neg (by simp [hvalid.isInitialized, hsame, hm.validHead.isInitialized]),
        if_neg (by rw [hsame, hn]; exact fun hh => hp (hm.head_iff.1 hh))]
      split
      · refine ⟨(Reverting.setPrev (s := s.setTail l r) (h.congr rfl rfl) (by rw [hn])).congr rfl rfl,
          hsame, ?_⟩
        simp [writeTail, persist, setTail, setData, update_eq_of_eq htail htailsEq]
      · rename_i hne
        refine ⟨h, hsame, htails'.resolve_right fun he => hne ?_⟩
        rw [he, newTails, if_pos hn, if_neg hp, update_self]
    · have hsame' : s.index.tails = I.tails := htails'.elim id fun he => by rw [he, newTails, if_neg hn]
      rw [if_neg (by simp [hsame, hsame', hm.validHead.isInitialized, hm.validTail.isInitialized]),
        if_neg (by rw [hsame]; exact hm.head_ne hp), if_neg (by rw [hsame']; exact hm.tail_ne hn)]
      exact ⟨h, hsame, hsame'⟩

theorem Reverting.stores (h : Reverting I r s) (hheads : s.index.heads = I.heads)
    (htails : s.index.tails = I.tails) :
    SamePtrs I ((s.store (I.nodes r).next (.own .next)).store (I.nodes r).prev (.own .prev)).index := by
  refine ⟨hheads, htails, fun a => ?_, fun a => ?_⟩
  all_goals simp only [store, persist]
  · by_cases ha : a = (I.nodes r).prev
    · rw [ha, update_self]
      exact h.before.next
    · rw [update_of_ne ha]
      by_cases ha' : a = (I.nodes r).next
      · rw [ha', update_self]
        exact h.behind.next
      · rw [update_of_ne ha']
        exact h.next a ha
  · by_cases ha : a = (I.nodes r).prev
    · rw [ha, update_self]
      exact h.before.prev
    · rw [update_of_ne ha]
      by_cases ha' : a = (I.nodes r).next
      · rw [ha', update_self]
        exact h.behind.prev
      · rw [update_of_ne ha']
        exact h.prev a ha'

theorem Undoable.neighbours (h : Undoable I l r J) (hm : Member I l r) :
    (J.nodes (I.nodes r).next).next = (I.nodes (I.nodes r).next).next ∧
      (J.nodes (I.nodes r).prev).prev = (I.nodes (I.nodes r).prev).prev := by
  constructor
  · by_cases hn : (I.nodes r).next = r
    · rw [hn, h.node.next]
    · exact (h.next _ hn).resolve_right fun he => hm.ne (he.1 ▸ hn) he.1.symm
  · by_cases hp : (I.nodes r).prev = r
    · rw [hp, h.node.prev]
    · exact (h.prev _ hp).resolve_right fun he => hm.ne hp he.1

theorem revertRemove_undoable (hm : Member I l r) (hJ : Undoable I l r J) (hs : Recovering J l r s) :
    SamePtrs I (s.revertRemove r).index := by
  have hnext : (s.mem (.own .node)).next = (I.nodes r).next := hs.links.next.trans hJ.node.next
  have hprev : (s.mem (.own .node)).prev = (I.nodes r).prev := hs.links.prev.trans hJ.node.prev
  have hK : Undoable I l r s.index := hJ.congr hs.index
  obtain ⟨hnextNext, hprevPrev⟩ := hK.neighbours hm
  dsimp only [revertRemove]
  rw [hnext, hprev, if_neg (by simp [hm.validNext.isInitialized, hm.validPrev.isInitialized]),
    if_neg (by simp [hm.validNext.isSeparateFile, hm.validPrev.isSeparateFile])]
  generalize hT : (s.load .next (I.nodes r).next).load .prev (I.nodes r).prev = T
  have hTnext : T.mem (.own .next) = s.index.nodes (I.nodes r).next := by
    rw [← hT]
    simp [load]
  have hTprev : T.mem (.own .prev) = s.index.nodes (I.nodes r).prev := by
    rw [← hT]
    simp [load]
  have hTsame : SameStores s T := by
    rw [← hT]
    exact ⟨rfl, rfl, rfl, rfl, rfl⟩
  -- the links to the node
  generalize hU : (if r ≠ (I.nodes r).prev then
    T.setData (.own .prev) { T.mem (.own .prev) with next := r } else T) = U
  have hUnext : U.mem (.own .next) = s.index.nodes (I.nodes r).next := by
    rw [← hU]
    split
    · simp [setData, hTnext]
    · exact hTnext
  have hUprev : SameLinks (U.mem (.own .prev)) (I.nodes (I.nodes r).prev) := by
    rw [← hU]
    split
    · rename_i hp
      simp only [setData, update_self, hTprev]
      exact ⟨(hm.next_prev hp.symm).symm, hprevPrev⟩
    · rename_i hp
      rw [hTprev, ← Classical.not_not.1 hp]
      exact hK.node
  have hUsame : SameStores s U := by
    rw [← hU]
    split
    · exact ⟨hTsame.heads, hTsame.tails, hTsame.isOpen, hTsame.index, hTsame.past⟩
    · exact hTsame
  generalize hV : (if r ≠ (I.nodes r).next then
    U.setData (.own .next) { U.mem (.own .next) with prev := r } else U) = V
  have hVnext : SameLinks (V.mem (.own .next)) (I.nodes (I.nodes r).next) := by
    rw [← hV]
    split
    · rename_i hn
      simp only [setData, update_self, hUnext]
      exact ⟨hnextNext, (hm.prev_next hn.symm).symm⟩
    · rename_i hn
      rw [hUnext, ← Classical.not_not.1 hn]
      exact hK.node
  have hVprev : SameLinks (V.mem (.own .prev)) (I.nodes (I.nodes r).prev) := by
    rw [← hV]
    split
    · simp only [setData]
      rw [update_of_ne (by simp)]
      exact hUprev
    · exact hUprev
  have hVsame : SameStores s V := by
    rw [← hV]
    split
    · exact ⟨hUsame.heads, hUsame.tails, hUsame.isOpen, hUsame.index, hUsame.past⟩
    · exact hUsame
  have hreverting : Reverting I r V := by
    refine ⟨hVnext, hVprev, fun a ha => ?_, fun a ha => ?_⟩
    · rw [hVsame.index]
      by_cases har : a = r
      · rw [har]
        exact hK.node.next
      · exact (hK.next a har).resolve_right fun he => ha he.1
    · rw [hVsame.index]
      by_cases har : a = r
      · rw [har]
        exact hK.node.prev
      · exact (hK.prev a har).resolve_right fun he => ha he.1
  have hlist : V.index.operationList = l := by rw [hVsame.index, hs.operationList]
  obtain ⟨hW, hWheads, hWtails⟩ := revertEnds_spec hm hreverting
    (by rw [hVsame.heads, hVsame.index, hs.heads, hs.index.heads])
    (by rw [hVsame.tails, hVsame.index, hs.tails, hs.index.tails])
    (by rw [hVsame.index]; exact hK.heads) (by rw [hVsame.index]; exact hK.tails)
  rw [hlist]
  exact (hW.stores hWheads hWtails).trans ⟨rfl, rfl, fun _ => rfl, fun _ => rfl⟩

theorem revertRemove_removed (hJ : Removed I l r J) (hs : Recovering J l r s) :
    Removed I l r (s.revertRemove r).index := by
  have hnext : (s.mem (.own .node)).next = 0 := hs.links.next.trans hJ.nodeNext
  dsimp only [revertRemove]
  rw [hnext, if_pos (.inl (by decide))]
  exact hJ.congr (hs.index.trans ⟨rfl, rfl, fun _ => rfl, fun _ => rfl⟩)

/-- **After a removal that was cut short**: the lists are as before, or without the node. -/
theorem RemoveStage.reopen (hm : Member I l r) (h : RemoveStage I l r J) (id : ℤ) :
    SamePtrs I (reopen id J) ∨ Removed I l r (reopen id J) := by
  cases h with
  | start same idle =>
    rw [reopen_idle id idle]
    exact .inl same
  | running undoable locked =>
    obtain ⟨s, hs, -, hremove⟩ := reopen_locked id locked hm.valid
    rw [hremove rfl]
    exact .inl (revertRemove_undoable hm undoable hs)
  | done removed idle =>
    rcases idle with idle | locked
    · rw [reopen_idle id idle]
      exact .inr removed
    · obtain ⟨s, hs, -, hremove⟩ := reopen_locked id locked hm.valid
      rw [hremove rfl]
      exact .inr (revertRemove_removed removed hs)

/-! ### The lists after a removal -/

variable {pre post : List CacheAddr}

theorem prev_eq (h : ListOk I l (pre ++ r :: post)) : (I.nodes r).prev = pre.getLast?.getD r := by
  rcases eq_nil_or_concat pre with rfl | ⟨pre', a, rfl⟩
  · exact h.links.head
  · have hlinks := h.links
    rw [concat_eq_append, List.append_assoc] at hlinks
    rw [concat_eq_append, List.getLast?_concat]
    exact hlinks.before.2

theorem next_eq (h : ListOk I l (pre ++ r :: post)) : (I.nodes r).next = post.head?.getD r := by
  cases post with
  | nil => exact h.links.tail
  | cons b post' => exact h.links.after.1

theorem prev_eq_iff (h : ListOk I l (pre ++ r :: post)) : (I.nodes r).prev = r ↔ pre = [] := by
  rw [prev_eq h]
  refine ⟨fun he => ?_, fun he => by rw [he]; rfl⟩
  rcases eq_nil_or_concat pre with rfl | ⟨pre', a, rfl⟩
  · rfl
  · rw [concat_eq_append, List.getLast?_concat] at he
    obtain rfl : a = r := he
    exact absurd rfl ((List.nodup_append.1 h.nodup).2.2 a (by simp) a mem_cons_self)

theorem next_eq_iff (h : ListOk I l (pre ++ r :: post)) : (I.nodes r).next = r ↔ post = [] := by
  rw [next_eq h]
  refine ⟨fun he => ?_, fun he => by rw [he]; rfl⟩
  cases post with
  | nil => rfl
  | cons b post' =>
    obtain rfl : b = r := he
    exact absurd mem_cons_self (nodup_cons.1 (List.nodup_append.1 h.nodup).2.1).1

theorem prev_mem (h : ListOk I l (pre ++ r :: post)) : (I.nodes r).prev ∈ pre ++ r :: post := by
  rw [prev_eq h]
  rcases eq_nil_or_concat pre with rfl | ⟨pre', a, rfl⟩ <;> simp

theorem next_mem (h : ListOk I l (pre ++ r :: post)) : (I.nodes r).next ∈ pre ++ r :: post := by
  rw [next_eq h]
  cases post with
  | nil | cons b post' => simp

theorem member_of_mem {xs : List CacheAddr} (h : ListOk I l xs) (hr : r ∈ xs) : Member I l r := by
  obtain ⟨pre, post, rfl⟩ := List.append_of_mem hr
  exact h.member

theorem indexOk_removed (h : IndexOk I lists) (hlist : lists l = pre ++ r :: post)
    (hJ : Removed I l r J) : IndexOk J (update lists l (pre ++ post)) := by
  have hl := h.list l
  rw [hlist] at hl
  have hm := hl.member
  obtain ⟨hnodupPre, hnodupPost, hdisjoint⟩ := List.nodup_append.1 hl.nodup
  have hne (a : CacheAddr) (ha : a ∈ pre ++ post) : a ≠ r := by
    rcases List.mem_append.1 ha with ha | ha
    · exact hdisjoint a ha r mem_cons_self
    · exact fun he => (nodup_cons.1 hnodupPost).1 (he ▸ ha)
  have hmemOf (a : CacheAddr) (ha : a ∈ pre ++ post) : a ∈ pre ++ r :: post := by
    rcases List.mem_append.1 ha with ha | ha
    · exact List.mem_append_left _ ha
    · exact List.mem_append_right _ (List.mem_cons_of_mem r ha)
  refine ⟨fun list => ?_, fun list list' hne' => ?_⟩
  · by_cases he : list = l
    · subst he
      rw [update_self]
      refine ⟨?_, ?_, fun a ha => hl.valid a (hmemOf a ha), ?_, ?_⟩
      · rw [hJ.heads, newHeads]
        split
        · rename_i hp
          rw [update_self, (prev_eq_iff hl).1 hp, next_eq hl, List.nil_append]
          cases post with
          | nil => exact if_pos rfl
          | cons b post' => exact if_neg (hne b (by simp))
        · rename_i hp
          obtain ⟨a, pre', rfl⟩ := exists_cons_of_ne_nil fun hnil => hp ((prev_eq_iff hl).2 hnil)
          exact hl.head
      · rw [hJ.tails, newTails]
        split
        · rename_i hn
          rw [update_self, (next_eq_iff hl).1 hn, prev_eq hl, List.append_nil]
          rcases eq_nil_or_concat pre with rfl | ⟨pre', a, rfl⟩
          · exact if_pos rfl
          · rw [concat_eq_append, List.getLast?_concat]
            exact if_neg (hne a (by simp))
        · rename_i hn
          obtain ⟨b, post', rfl⟩ := exists_cons_of_ne_nil fun hnil => hn ((next_eq_iff hl).2 hnil)
          rw [hl.tail, List.getLast?_append_cons, List.getLast?_append_cons, List.getLast?_cons_cons]
      · exact hl.nodup.sublist ((List.sublist_cons_self r post).append_left pre)
      · refine hl.links.remove hl.nodup (fun a ha => ?_) fun a ha => ?_
        · have hiff : a = (I.nodes r).prev ↔ (I.nodes a).next = r := by
            refine ⟨fun hap => ?_, fun hnext => ?_⟩
            · rw [hap]
              exact hm.next_prev (hap ▸ hne a ha)
            · have hback := (member_of_mem hl (hmemOf a ha)).prev_next (hnext ▸ (hne a ha).symm)
              rw [hnext] at hback
              exact hback.symm
          rw [hJ.next a (hne a ha)]
          by_cases hap : a = (I.nodes r).prev
          · rw [if_pos hap, if_pos (hiff.1 hap), newNext]
            split
            · rename_i hn
              rw [(next_eq_iff hl).1 hn, hap]
              rfl
            · rename_i hn
              obtain ⟨b, post', rfl⟩ :=
                exists_cons_of_ne_nil fun hnil => hn ((next_eq_iff hl).2 hnil)
              exact next_eq hl
          · rw [if_neg hap, if_neg fun hnext => hap (hiff.2 hnext)]
        · have hiff : a = (I.nodes r).next ↔ (I.nodes a).prev = r := by
            refine ⟨fun han => ?_, fun hprev => ?_⟩
            · rw [han]
              exact hm.prev_next (han ▸ hne a ha)
            · have hforth := (member_of_mem hl (hmemOf a ha)).next_prev (hprev ▸ (hne a ha).symm)
              rw [hprev] at hforth
              exact hforth.symm
          rw [hJ.prev a (hne a ha)]
          by_cases han : a = (I.nodes r).next
          · rw [if_pos han, if_pos (hiff.1 han), newPrev]
            split
            · rename_i hp
              rw [(prev_eq_iff hl).1 hp, han]
              rfl
            · rename_i hp
              rcases eq_nil_or_concat pre with rfl | ⟨pre', b, rfl⟩
              · exact absurd ((prev_eq_iff hl).2 rfl) hp
              · rw [prev_eq hl, concat_eq_append, List.getLast?_concat]
                rfl
          · rw [if_neg han, if_neg fun hprev => han (hiff.2 hprev)]
    · have hother (a : CacheAddr) (ha : a ∈ lists list) (b : CacheAddr) (hb : b ∈ pre ++ r :: post) :
          a ≠ b := fun hab => h.disjoint list l he ha (hlist ▸ hab ▸ hb)
      rw [update_of_ne he]
      obtain ⟨hhead, htail, hvalid, hnodup, hlinks⟩ := h.list list
      refine ⟨?_, ?_, hvalid, hnodup, hlinks.congr fun a ha => ⟨?_, ?_⟩⟩
      · rw [hJ.heads, newHeads]
        split
        · rw [update_of_ne he, hhead]
        · exact hhead
      · rw [hJ.tails, newTails]
        split
        · rw [update_of_ne he, htail]
        · exact htail
      · rw [hJ.next a (hother a ha r (by simp)), if_neg (hother a ha _ (prev_mem hl))]
      · rw [hJ.prev a (hother a ha r (by simp)), if_neg (hother a ha _ (next_mem hl))]
  · have hdisj := h.disjoint list list' hne'
    by_cases he : list = l
    · subst he
      rw [update_self, update_of_ne (Ne.symm hne')]
      rw [hlist] at hdisj
      exact fun a ha => hdisj (hmemOf a ha)
    · rw [update_of_ne he]
      by_cases he' : list' = l
      · subst he'
        rw [update_self]
        rw [hlist] at hdisj
        exact fun a ha ha' => hdisj ha (hmemOf a ha')
      · rw [update_of_ne he']
        exact hdisj

/-! ### An operation that is cut short -/

/-- A process that has an index open, before an operation. -/
structure Opened (lists : RankingsList → List CacheAddr) (s : Rankings) : Prop where
  index : IndexOk s.index lists
  idle : s.index.transaction = 0
  past : s.past = []
  heads : s.heads = s.index.heads
  tails : s.tails = s.index.tails
  entries : ∀ list, ∀ a ∈ lists list, s.isOpen a = true → SameLinks (s.mem (.entry a)) (s.index.nodes a)

theorem Opened.always (h : Opened lists s) {P : Index → Prop} (hP : P s.index) : Always P s :=
  ⟨hP, by simp [h.past]⟩

theorem Opened.insert (h : Opened lists s) (hn : RankingsAddr n) (hfresh : ∀ list, n ∉ lists list)
    (loc : Loc) : Always (InsertStage s.index l n) (s.insert n loc l) := by
  have hI := canInsert_of_indexOk (l := l) h.index hn (hfresh l)
  refine (insert_spec (fun J hJ => hJ) hI (h.always (.start (.refl _) h.idle)) h.idle h.heads h.tails
    ?_ loc).1
  intro hne hopen
  refine h.entries l _ ?_ hopen
  have hhead := (h.index.list l).head
  have hnil : lists l ≠ [] := fun hnil => hne (by rw [hhead, hnil]; rfl)
  rw [hhead, List.head?_eq_some_head hnil]
  exact List.head_mem hnil

theorem IndexOk.unique {l' : RankingsList} (h : IndexOk I lists) (hr : r ∈ lists l)
    (hl' : I.heads l' = r ∨ I.tails l' = r) : l' = l := by
  by_contra hne
  obtain ⟨hhead, htail, -, -, -⟩ := h.list l'
  have hr0 := ((h.list l).valid r hr).ne_zero
  refine h.disjoint l' l hne ?_ hr
  cases hxs : lists l' with
  | nil =>
    rw [hxs] at hhead htail
    rcases hl' with he | he
    · exact absurd (he.symm.trans hhead) hr0
    · exact absurd (he.symm.trans htail) hr0
  | cons a post =>
    rw [hxs] at hhead htail
    rcases hl' with he | he
    · rw [← he, hhead]
      exact mem_cons_self
    · rw [← he, htail, List.getLast?_eq_some_getLast (List.cons_ne_nil a post)]
      exact List.getLast_mem _

theorem Opened.canRemove (h : Opened lists s) (hr : r ∈ lists l)
    (hnode : SameLinks (s.mem loc) (s.index.nodes r)) (hloc : loc = .own .node ∨ loc = .entry r) :
    CanRemove l r loc s := by
  have hl := h.index.list l
  obtain ⟨pre, post, hlist⟩ := List.append_of_mem hr
  have hnext : (s.index.nodes r).next ∈ lists l := hlist ▸ next_mem (hlist ▸ hl)
  have hprev : (s.index.nodes r).prev ∈ lists l := hlist ▸ prev_mem (hlist ▸ hl)
  exact
    { member := member_of_mem hl hr
      next := member_of_mem hl hnext
      prev := member_of_mem hl hprev
      head := fun l' he => IndexOk.unique h.index hr (.inl he)
      tail := fun l' he => IndexOk.unique h.index hr (.inr he)
      heads := h.heads
      tails := h.tails
      openedNext := h.entries l _ hnext
      openedPrev := h.entries l _ hprev
      node := hnode
      loc := hloc }

end Rankings

open Rankings

def Rankings.persisted (s : Rankings) : List Index := s.index :: s.past

/-- **Recovery**: an insertion or a removal stops before any of its stores, and the index is opened
again.  Its lists are then well formed; the list of the operation holds the same nodes as before in
the same order, with the node of the operation or without it. -/
theorem reopen_persisted (h : Opened lists s) (id : ℤ) (l : RankingsList) (loc : Loc) :
    (∀ n, RankingsAddr n → (∀ list, n ∉ lists list) → ∀ J ∈ (s.insert n loc l).persisted,
      IndexOk (reopen id J) lists ∨ IndexOk (reopen id J) (Function.update lists l (n :: lists l))) ∧
    (∀ r ∈ lists l, SameLinks (s.mem loc) (s.index.nodes r) → loc = .own .node ∨ loc = .entry r →
      ∀ J ∈ (s.remove r loc l).persisted, IndexOk (reopen id J) lists ∨
          IndexOk (reopen id J) (Function.update lists l ((lists l).erase r))) := by
  constructor
  · intro n hn hfresh J hJ
    have halways := h.insert (l := l) hn hfresh loc
    have hstage : InsertStage s.index l n J := List.forall_mem_cons.mpr ⟨halways.now, halways.before⟩ J hJ
    rcases hstage.reopen (canInsert_of_indexOk h.index hn (hfresh l)) id with hsame | hinserted
    · exact .inl (h.index.congr hsame)
    · exact .inr (indexOk_inserted h.index hn hfresh hinserted)
  · intro r hr hnode hloc J hJ
    have hcan := h.canRemove hr hnode hloc
    obtain ⟨halways, -⟩ := remove_spec hcan (fun J hJ => hJ) (h.always (.start (.refl _) h.idle)) h.idle
    have hstage : RemoveStage s.index l r J := List.forall_mem_cons.mpr ⟨halways.now, halways.before⟩ J hJ
    rcases hstage.reopen hcan.member id with hsame | hremoved
    · exact .inl (h.index.congr hsame)
    · obtain ⟨pre, post, hlist⟩ := List.append_of_mem hr
      have hnot : r ∉ pre := by
        have hnodup := (h.index.list l).nodup
        rw [hlist] at hnodup
        exact fun hmem => (List.nodup_append.mp hnodup).2.2 r hmem r List.mem_cons_self rfl
      rw [hlist, List.erase_append_right _ hnot, List.erase_cons_head]
      exact .inr (indexOk_removed h.index hlist hremoved)

/-- The nodes at `0x90000001` and `0x90000002` on the first list. -/
def twoNodes : Index where
  heads list := if list = .NO_USE then 0x90000001 else 0
  tails list := if list = .NO_USE then 0x90000002 else 0
  transaction := 0
  operation := .none
  operationList := .NO_USE
  nodes a :=
    if a = 0x90000001 then ⟨0x90000002, 0x90000001, 0, 0⟩
    else if a = 0x90000002 then ⟨0x90000002, 0x90000001, 0, 0⟩
    else ⟨0, 0, 0, 0⟩

/-- The elements of the lists of `twoNodes`. -/
def twoNodesLists (list : RankingsList) : List CacheAddr :=
  if list = .NO_USE then [0x90000001, 0x90000002] else []

/-- A process that has `twoNodes` open, with a node in memory. -/
def twoNodesOpen (node : RankingsNode) : Rankings :=
  ⟨twoNodes.heads, twoNodes.tails, fun _ => node, fun _ => false, 7, twoNodes, []⟩

theorem twoNodes_indexOk : IndexOk twoNodes twoNodesLists := by
  refine ⟨fun list => ?_, fun list list' hne => ?_⟩
  · by_cases hl : list = .NO_USE
    · subst hl
      refine ⟨rfl, rfl, ?_, by decide, ⟨by rintro _ ⟨⟩; rfl, by rintro _ ⟨⟩; rfl, ?_⟩⟩
      · rintro a ha
        rcases List.mem_cons.1 ha with rfl | ha
        · exact ⟨by decide, by decide, by decide⟩
        · obtain rfl := List.mem_singleton.1 ha
          exact ⟨by decide, by decide, by decide⟩
      · exact List.isChain_pair.2 ⟨by decide, by decide⟩
    · rw [twoNodesLists, if_neg hl]
      exact ⟨if_neg hl, if_neg hl, by simp, List.nodup_nil, Lib.links_nil⟩
  · unfold twoNodesLists
    split
    · rw [if_neg (by rename_i hl; exact fun hl' => hne (hl.trans hl'.symm))]
      exact List.disjoint_nil_right _
    · exact List.disjoint_nil_left _

theorem twoNodes_opened (node : RankingsNode) : Opened twoNodesLists (twoNodesOpen node) :=
  ⟨twoNodes_indexOk, rfl, rfl, rfl, rfl, fun _ _ _ h => absurd h (by simp [twoNodesOpen])⟩

theorem reopen_persisted_twoNodes :
    (∀ J ∈ ((twoNodesOpen ⟨0, 0, 0, 0⟩).insert 0x90000003 (.own .node) .NO_USE).persisted,
      IndexOk (reopen 8 J) twoNodesLists ∨ IndexOk (reopen 8 J)
        (Function.update twoNodesLists .NO_USE [0x90000003, 0x90000001, 0x90000002])) ∧
    (∀ J ∈ ((twoNodesOpen ⟨0x90000002, 0x90000001, 0, 0⟩).remove 0x90000001 (.own .node)
        .NO_USE).persisted,
      IndexOk (reopen 8 J) twoNodesLists ∨
        IndexOk (reopen 8 J) (Function.update twoNodesLists .NO_USE [0x90000002])) := by
  constructor
  · refine (reopen_persisted (twoNodes_opened _) 8 .NO_USE (.own .node)).1 _
      ⟨by decide, by decide, by decide⟩ fun list => ?_
    cases list <;> decide
  · exact (reopen_persisted (twoNodes_opened _) 8 .NO_USE (.own .node)).2 0x90000001 (by decide)
      ⟨rfl, rfl⟩ (.inl rfl)

end Chromium.Net.DiskCache
