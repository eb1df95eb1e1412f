import Chromium.Lib.LinkedList
import Mathlib.Data.UInt

/-!
# The rankings of the entries

`net/disk_cache/rankings.cc`: the nodes of the entries of a cache are on doubly linked lists, whose
heads and tails are kept in the index.  An insertion or a removal goes through several stores, and
a transaction in the index tells, when the index is opened again, that one of them was not finished:
an insertion is then finished, and a removal is undone.
-/

namespace Chromium.Net.DiskCache

abbrev CacheAddr := UInt32

def CacheAddr.isInitialized (value : CacheAddr) : Bool := value &&& 0x80000000 ≠ 0

def CacheAddr.isSeparateFile (value : CacheAddr) : Bool := value &&& 0x70000000 = 0

def CacheAddr.fileType (value : CacheAddr) : UInt32 := (value &&& 0x70000000) >>> 28

def RANKINGS : UInt32 := 1

def CacheAddr.sanityCheck (value : CacheAddr) : Bool :=
  if !value.isInitialized then value = 0
  else if 4 < value.fileType then false
  else if value.isSeparateFile then true
  else value &&& 0x0c000000 = 0

/-- `Rankings::List`. -/
inductive RankingsList
  | NO_USE
  | LOW_USE
  | HIGH_USE
  | RESERVED
  | DELETED
  deriving DecidableEq

def allLists : List RankingsList := [.NO_USE, .LOW_USE, .HIGH_USE, .RESERVED, .DELETED]

inductive Operation
  | none
  | INSERT
  | REMOVE
  deriving DecidableEq

structure RankingsNode where
  next : CacheAddr
  prev : CacheAddr
  dirty : ℤ
  dummy : ℤ

/-- What is on disk: `LruData` and the rankings nodes. -/
structure Index where
  heads : RankingsList → CacheAddr
  tails : RankingsList → CacheAddr
  transaction : CacheAddr
  operation : Operation
  operationList : RankingsList
  nodes : CacheAddr → RankingsNode

/-- The blocks of memory that a function has of its own. -/
inductive Slot
  | node
  | head
  | next
  | prev
  deriving DecidableEq

/-- Where the data of a `CacheRankingsBlock` are: in memory of its own, or in that of the open
entry with its address. -/
inductive Loc
  | own (slot : Slot)
  | entry (address : CacheAddr)
  deriving DecidableEq

/-- `Rankings` with its memory, what is on disk, and what was on disk before each store, the last
first. -/
structure Rankings where
  heads : RankingsList → CacheAddr
  tails : RankingsList → CacheAddr
  mem : Loc → RankingsNode
  isOpen : CacheAddr → Bool
  currentEntryId : ℤ
  index : Index
  past : List Index

namespace Rankings

variable (s : Rankings)

def persist (index : Index) : Rankings := { s with index := index, past := s.index :: s.past }

def load (slot : Slot) (address : CacheAddr) : Rankings :=
  { s with mem := Function.update s.mem (.own slot) (s.index.nodes address) }

def setData (loc : Loc) (data : RankingsNode) : Rankings :=
  { s with mem := Function.update s.mem loc data }

def store (address : CacheAddr) (loc : Loc) : Rankings :=
  s.persist { s.index with nodes := Function.update s.index.nodes address (s.mem loc) }

def writeHead (list : RankingsList) : Rankings :=
  s.persist { s.index with heads := Function.update s.index.heads list (s.heads list) }

def writeTail (list : RankingsList) : Rankings :=
  s.persist { s.index with tails := Function.update s.index.tails list (s.tails list) }

def setHead (list : RankingsList) (value : CacheAddr) : Rankings :=
  { s with heads := Function.update s.heads list value }

def setTail (list : RankingsList) (value : CacheAddr) : Rankings :=
  { s with tails := Function.update s.tails list value }

def setTransaction (value : CacheAddr) : Rankings := s.persist { s.index with transaction := value }

def setOperation (value : Operation) : Rankings := s.persist { s.index with operation := value }

def setOperationList (value : RankingsList) : Rankings :=
  s.persist { s.index with operationList := value }

/-- The constructor of `Transaction`. -/
def beginTransaction (address : CacheAddr) (operation : Operation) (list : RankingsList) : Rankings :=
  ((s.setOperation operation).setOperationList list).setTransaction address

/-- The destructor of `Transaction`. -/
def endTransaction : Rankings := ((s.setTransaction 0).setOperation .none).setOperationList .NO_USE

/-- `IsHead`: the list that the node is the head of. -/
def isHead (address : CacheAddr) : Option RankingsList :=
  allLists.find? fun list => address = s.heads list

def isTail (address : CacheAddr) : Option RankingsList :=
  allLists.find? fun list => address = s.tails list

def sanityCheck (address : CacheAddr) (data : RankingsNode) (fromList : Bool) : Bool :=
  if (data.next = 0 ∧ data.prev ≠ 0) ∨ (data.next ≠ 0 ∧ data.prev = 0) then false
  else if data.next = 0 ∧ data.prev = 0 ∧ fromList then false
  else if address = data.prev ∧ (s.isHead data.prev).isNone then false
  else if address = data.next ∧ (s.isTail data.next).isNone then false
  else if data.next = 0 ∧ data.prev = 0 then true
  else data.next.sanityCheck ∧ data.next.fileType = RANKINGS ∧ data.prev.sanityCheck ∧ data.prev.fileType = RANKINGS

/-- `GetRanking` of a block with some address: where its data are, if it can be trusted. -/
def getRanking (slot : Slot) (address : CacheAddr) : Rankings × Option Loc :=
  if !address.isInitialized then (s, none)
  else
    let s := s.load slot address
    let data := s.mem (.own slot)
    if !s.sanityCheck address data true then (s, none)
    else if data.dirty = 0 ∧ data.dummy = 0 then (s, some (.own slot))
    else if s.isOpen address then (s, some (.entry address))
    else
      let dirty := s.currentEntryId - 1
      let dirty := if dirty = 0 then dirty - 1 else dirty
      (s.setData (.own slot) { data with dummy := 0, dirty := dirty }, some (.own slot))

/-- `Insert` once the head points back to the node. -/
def insertNode (address : CacheAddr) (loc : Loc) (list : RankingsList) : Rankings :=
  let s := s.setData loc { s.mem loc with next := s.heads list, prev := address }
  let s := s.setHead list address
  let s :=
    if (s.tails list).isInitialized = false ∨ s.tails list = address then
      let s := s.setTail list address
      (s.setData loc { s.mem loc with next := address }).writeTail list
    else s
  (s.store address loc).writeHead list

def insert (address : CacheAddr) (loc : Loc) (list : RankingsList) : Rankings :=
  let s := s.beginTransaction address .INSERT list
  let head := s.heads list
  if head.isInitialized then
    match s.getRanking .head head with
    | (s, none) => s.endTransaction
    | (s, some headLoc) =>
      let data := s.mem headLoc
      if data.prev ≠ head ∧ data.prev ≠ address then s.endTransaction
      else
        (((s.setData headLoc { data with prev := address }).store head headLoc).insertNode address
          loc list).endTransaction
  else (s.insertNode address loc list).endTransaction

/-- `CheckLinks`: the list of the node, if its links are right. -/
def checkLinks (address : CacheAddr) (loc : Loc) (prevAddr nextAddr : CacheAddr)
    (prevLoc nextLoc : Loc) (list : RankingsList) : Rankings × Option RankingsList :=
  let prev := s.mem prevLoc
  let next := s.mem nextLoc
  if prev.next = address ∧ next.prev = address then (s, some list)
  else if address ≠ prevAddr ∧ address ≠ nextAddr ∧ prev.next = nextAddr ∧ next.prev = prevAddr then
    ((s.setData loc { s.mem loc with next := 0, prev := 0 }).store address loc, none)
  else if prev.next = address ∨ next.prev = address then
    match if prev.next ≠ address then s.isHead address else none with
    | some list => (s, some list)
    | none =>
      match if next.prev ≠ address then s.isTail address else none with
      | some list => (s, some list)
      | none => (s, none)
  else (s, none)

/-- `Remove` of the head, of the tail or of the only node: the index changes first. -/
def removeEnds (address prevAddr nextAddr : CacheAddr) (prevLoc nextLoc : Loc) (list : RankingsList) :
    Rankings :=
  let head := s.heads list
  let tail := s.tails list
  if address = head ∨ address = tail then
    if head = tail then (((s.setHead list 0).setTail list 0).writeHead list).writeTail list
    else if address = head then
      ((s.setHead list nextAddr).setData nextLoc { s.mem nextLoc with prev := nextAddr }).writeHead list
    else
      (((s.setTail list prevAddr).setData prevLoc { s.mem prevLoc with next := prevAddr }).writeTail
        list).store prevAddr prevLoc
  else s

/-- `Remove` once the links are checked. -/
def removeNode (address : CacheAddr) (loc : Loc) (prevAddr nextAddr : CacheAddr)
    (prevLoc nextLoc : Loc) (list : RankingsList) : Rankings :=
  let s := s.beginTransaction address .REMOVE list
  let s := s.setData prevLoc { s.mem prevLoc with next := nextAddr }
  let s := s.setData nextLoc { s.mem nextLoc with prev := prevAddr }
  let s := s.removeEnds address prevAddr nextAddr prevLoc nextLoc list
  let s := s.setData loc { s.mem loc with next := 0, prev := 0 }
  (((s.store nextAddr nextLoc).store prevAddr prevLoc).store address loc).endTransaction

def remove (address : CacheAddr) (loc : Loc) (list : RankingsList) : Rankings :=
  let nextAddr := (s.mem loc).next
  let prevAddr := (s.mem loc).prev
  if nextAddr.isInitialized = false ∨ nextAddr.isSeparateFile ∨ prevAddr.isInitialized = false ∨
      prevAddr.isSeparateFile then s
  else
    match s.getRanking .next nextAddr with
    | (s, none) => s
    | (s, some nextLoc) =>
      match s.getRanking .prev prevAddr with
      | (s, none) => s
      | (s, some prevLoc) =>
        match s.checkLinks address loc prevAddr nextAddr prevLoc nextLoc list with
        | (s, none) => s
        | (s, some list) => s.removeNode address loc prevAddr nextAddr prevLoc nextLoc list

/-- `FinishInsert` of a node that is in memory. -/
def finishInsert (address : CacheAddr) : Rankings :=
  let s := (s.setTransaction 0).setOperation .none
  let list := s.index.operationList
  if s.heads list ≠ address then
    let s :=
      if s.tails list = address then
        s.setData (.own .node) { s.mem (.own .node) with next := s.tails list }
      else s
    s.insert address (.own .node) list
  else s

/-- `RevertRemove`: a head or a tail that has moved to a neighbour is the node again. -/
def revertEnds (address prevAddr nextAddr : CacheAddr) (list : RankingsList) : Rankings :=
  let head := s.heads list
  let tail := s.tails list
  if head.isInitialized = false ∨ tail.isInitialized = false then
    (((s.setHead list address).setTail list address).writeHead list).writeTail list
  else if head = nextAddr then
    ((s.setHead list address).setData (.own .prev)
      { s.mem (.own .prev) with next := nextAddr }).writeHead list
  else if tail = prevAddr then
    ((s.setTail list address).setData (.own .next)
      { s.mem (.own .next) with prev := prevAddr }).writeTail list
  else s

/-- `RevertRemove` of a node that is in memory. -/
def revertRemove (address : CacheAddr) : Rankings :=
  let nextAddr := (s.mem (.own .node)).next
  let prevAddr := (s.mem (.own .node)).prev
  if nextAddr.isInitialized = false ∨ prevAddr.isInitialized = false then s.setTransaction 0
  else if nextAddr.isSeparateFile ∨ prevAddr.isSeparateFile then s.setTransaction 0
  else
    let s := (s.load .next nextAddr).load .prev prevAddr
    let s :=
      if address ≠ prevAddr then
        s.setData (.own .prev) { s.mem (.own .prev) with next := address }
      else s
    let s :=
      if address ≠ nextAddr then
        s.setData (.own .next) { s.mem (.own .next) with prev := address }
      else s
    let s := s.revertEnds address prevAddr nextAddr s.index.operationList
    (((s.store nextAddr (.own .next)).store prevAddr (.own .prev)).setTransaction 0).setOperation
      .none

def completeTransaction : Rankings :=
  let address := s.index.transaction
  if address.isInitialized = false ∨ address.isSeparateFile then s
  else
    let s := s.load .node address
    let s := (s.setData (.own .node) { s.mem (.own .node) with dummy := 0 }).store address (.own .node)
    match s.index.operation with
    | .INSERT => s.finishInsert address
    | .REMOVE => s.revertRemove address
    | .none => s

end Rankings

/-- `Rankings::Init` on what is on disk: no entry is open. -/
def Rankings.init (currentEntryId : ℤ) (index : Index) : Rankings :=
  let s : Rankings :=
    { heads := index.heads
      tails := index.tails
      mem := fun _ => ⟨0, 0, 0, 0⟩
      isOpen := fun _ => false
      currentEntryId := currentEntryId
      index := index
      past := [] }
  if index.transaction ≠ 0 then s.completeTransaction else s

/-! ### Well-formed lists -/

structure RankingsAddr (a : CacheAddr) : Prop where
  isInitialized : a.isInitialized = true
  sanityCheck : a.sanityCheck = true
  fileType : a.fileType = RANKINGS

theorem RankingsAddr.ne_zero {a : CacheAddr} (h : RankingsAddr a) : a ≠ 0 := by
  rintro rfl
  exact nomatch h.isInitialized

theorem RankingsAddr.isSeparateFile {a : CacheAddr} (h : RankingsAddr a) : a.isSeparateFile = false := by
  have htype := h.fileType
  unfold CacheAddr.fileType at htype
  rw [CacheAddr.isSeparateFile, decide_eq_false_iff_not]
  intro hzero
  rw [hzero] at htype
  cases htype

/-- A list in the index with its elements in order. -/
structure ListOk (index : Index) (list : RankingsList) (xs : List CacheAddr) : Prop where
  head : index.heads list = xs.head?.getD 0
  tail : index.tails list = xs.getLast?.getD 0
  valid : ∀ a ∈ xs, RankingsAddr a
  nodup : xs.Nodup
  links : Lib.Links (fun a => (index.nodes a).next) (fun a => (index.nodes a).prev) xs

/-- The lists of an index; no node is on two of them. -/
structure IndexOk (index : Index) (lists : RankingsList → List CacheAddr) : Prop where
  list : ∀ list, ListOk index list (lists list)
  disjoint : ∀ list list', list ≠ list' → (lists list).Disjoint (lists list')

structure SamePtrs (index index' : Index) : Prop where
  heads : index'.heads = index.heads
  tails : index'.tails = index.tails
  next : ∀ a, (index'.nodes a).next = (index.nodes a).next
  prev : ∀ a, (index'.nodes a).prev = (index.nodes a).prev

structure SameLinks (data node : RankingsNode) : Prop where
  next : data.next = node.next
  prev : data.prev = node.prev

variable {I J K : Index} {lists : RankingsList → List CacheAddr} {l : RankingsList}
  {xs : List CacheAddr} {r n : CacheAddr}

theorem SamePtrs.refl (I : Index) : SamePtrs I I := ⟨rfl, rfl, fun _ => rfl, fun _ => rfl⟩

theorem SamePtrs.trans (h : SamePtrs I J) (h' : SamePtrs J K) : SamePtrs I K :=
  ⟨h'.heads.trans h.heads, h'.tails.trans h.tails, fun a => (h'.next a).trans (h.next a),
    fun a => (h'.prev a).trans (h.prev a)⟩

theorem SamePtrs.store {data : RankingsNode} (h : SameLinks data (J.nodes n)) :
    SamePtrs J { J with nodes := Function.update J.nodes n data } := by
  refine ⟨rfl, rfl, fun a => ?_, fun a => ?_⟩
  · by_cases ha : a = n
    · simp [ha, h.next]
    · simp [Function.update_of_ne ha]
  · by_cases ha : a = n
    · simp [ha, h.prev]
    · simp [Function.update_of_ne ha]

theorem IndexOk.congr (h : IndexOk I lists) (hsame : SamePtrs I J) : IndexOk J lists := by
  refine ⟨fun l => ?_, h.disjoint⟩
  obtain ⟨h1, h2, h3, h4, h5⟩ := h.list l
  refine ⟨?_, ?_, h3, h4, h5.congr fun a _ => ⟨hsame.next a, hsame.prev a⟩⟩
  · rw [hsame.heads]
    exact h1
  · rw [hsame.tails]
    exact h2

/-- What the links of an element of a list look like: it is the head, the tail, both or
neither. -/
structure Member (I : Index) (l : RankingsList) (r : CacheAddr) : Prop where
  valid : RankingsAddr r
  validPrev : RankingsAddr (I.nodes r).prev
  validNext : RankingsAddr (I.nodes r).next
  validHead : RankingsAddr (I.heads l)
  validTail : RankingsAddr (I.tails l)
  head_iff : I.heads l = r ↔ (I.nodes r).prev = r
  tail_iff : I.tails l = r ↔ (I.nodes r).next = r
  next_prev : (I.nodes r).prev ≠ r → (I.nodes (I.nodes r).prev).next = r
  prev_next : (I.nodes r).next ≠ r → (I.nodes (I.nodes r).next).prev = r
  ne : (I.nodes r).prev ≠ r → (I.nodes r).prev ≠ (I.nodes r).next
  head_ne : (I.nodes r).prev ≠ r → I.heads l ≠ (I.nodes r).next
  tail_ne : (I.nodes r).next ≠ r → I.tails l ≠ (I.nodes r).prev

theorem ListOk.member {pre post : List CacheAddr} (h : ListOk I l (pre ++ r :: post)) :
    Member I l r := by
  have hr := h.valid r (by simp)
  have hnodup := h.nodup
  have hlinks := h.links
  have hvalid := h.valid
  have hhead := h.head
  have htail := h.tail
  -- the element before it, and the one behind it
  rcases List.eq_nil_or_concat pre with rfl | ⟨pre', a, rfl⟩
  · have hprev : (I.nodes r).prev = r := hlinks.head
    replace hhead : I.heads l = r := hhead
    cases post with
    | nil =>
      have hnext : (I.nodes r).next = r :=
        Lib.Links.tail (show Lib.Links _ _ ([] ++ [r]) from hlinks)
      replace htail : I.tails l = r := htail
      exact ⟨hr, by rwa [hprev], by rwa [hnext], by rwa [hhead], by rwa [htail], by grind, by grind,
        by grind, by grind, by grind, by grind, by grind⟩
    | cons b post' =>
      obtain ⟨hnext, hback⟩ :=
        Lib.Links.after (show Lib.Links _ _ ([] ++ r :: b :: post') from hlinks)
      have hlast : I.tails l ∈ b :: post' := by
        rw [htail, List.nil_append, List.getLast?_cons_cons, List.getLast?_eq_some_getLast (List.cons_ne_nil b post')]
        exact List.getLast_mem _
      have hne : r ∉ b :: post' := (List.nodup_cons.1 hnodup).1
      have hbr : r ≠ b := fun he => hne (he ▸ List.mem_cons_self)
      have htr : I.tails l ≠ r := fun he => hne (he ▸ hlast)
      refine ⟨hr, by rwa [hprev], ?_, by rwa [hhead], hvalid _ (by simp [List.mem_cons.1 hlast]),
        by grind, by grind, by grind, by grind, by grind, by grind, by grind⟩
      rw [hnext]
      exact hvalid b (by simp)
  · rw [List.concat_eq_append] at *
    have hprev := hlinks
    rw [List.append_assoc] at hprev
    obtain ⟨hforth, hback⟩ := hprev.before
    have hfirst : I.heads l ∈ pre' ++ [a] := by
      have hne : pre' ++ [a] ≠ [] := by simp
      rw [hhead, List.head?_append_of_ne_nil _ hne, List.head?_eq_some_head hne]
      exact List.head_mem hne
    obtain ⟨-, hcons, hdisj⟩ := List.nodup_append.1 hnodup
    have har : a ≠ r := hdisj a (by simp) r List.mem_cons_self
    have hhr : I.heads l ≠ r := hdisj _ hfirst r List.mem_cons_self
    have ha := hvalid a (by simp)
    have hh := hvalid _ (List.mem_append_left _ hfirst)
    cases post with
    | nil =>
      have hnext : (I.nodes r).next = r := hlinks.tail
      replace htail : I.tails l = r := by rw [htail]; simp
      exact ⟨hr, by rwa [hback], by rwa [hnext], hh, by rwa [htail], by grind, by grind, by grind,
        by grind, by grind, by grind, by grind⟩
    | cons b post' =>
      obtain ⟨hnext, hnextBack⟩ := hlinks.after
      have hlast : I.tails l ∈ b :: post' := by
        rw [htail, List.getLast?_append_of_ne_nil _ (List.cons_ne_nil r _), List.getLast?_cons_cons,
          List.getLast?_eq_some_getLast (List.cons_ne_nil b post')]
        exact List.getLast_mem _
      have hbr : r ≠ b := fun he => (List.nodup_cons.1 hcons).1 (he ▸ List.mem_cons_self)
      have htr : I.tails l ≠ r := fun he => (List.nodup_cons.1 hcons).1 (he ▸ hlast)
      have hab : a ≠ b := hdisj a (by simp) b (by simp)
      have hhb : I.heads l ≠ b := hdisj _ hfirst b (by simp)
      have hta : I.tails l ≠ a := fun he =>
        hdisj a (by simp) a (List.mem_cons_of_mem r (he ▸ hlast)) rfl
      have hb := hvalid b (by simp)
      have ht := hvalid _ (List.mem_append_right _ (List.mem_cons_of_mem r hlast))
      exact ⟨hr, by rwa [hback], by rwa [hnext], hh, ht, by grind, by grind, by grind, by grind,
        by grind, by grind, by grind⟩

end Chromium.Net.DiskCache
