import Chromium.Net.Cookies.CookieStoreRows
import Chromium.Net.Cookies.CookieTaskOrder

/-!
# Keys that are loaded

A key is taken out of the map before its notification is posted, and a notification takes the whole buffer.  So when
`OnKeyLoaded` has run for a key, the rows that the database has under it have been handed over (`HandsOver.keysLoaded`), and
with them those of the first of all keys, which is loaded before anything else.
-/

namespace Chromium.Net.Cookies

open Lib Lib.SortedMap Backend CookieMonster

variable {Id Columns : Type} {getDomainAndRegistry : List UInt8 → List UInt8} {rows : List (CookieRow Columns)}

/-! ## What a step does to a monster -/

inductive Turned (m : CookieMonster Url Id (List UInt8) (CookieRow Columns)) :
    CookieMonster Url Id (List UInt8) (CookieRow Columns) → Prop
  | ended {key : List UInt8} {loops : List (Loop Url Id (List UInt8))} (h : m.loops = .onKeyLoaded key [] :: loops) :
    Turned m { m with loops := loops }
  | ran {key : List UInt8} {task : CookieMonsterTask Url Id} {tasks : List (CookieMonsterTask Url Id)}
    {loops : List (Loop Url Id (List UInt8))} (h : m.loops = .onKeyLoaded key (task :: tasks) :: loops) :
    Turned m { m with loops := .onKeyLoaded key tasks :: loops, ran := m.ran ++ [task] }
  | loaded {loops : List (Loop Url Id (List UInt8))} (h : m.loops = .invokeQueue :: loops) (hqueue : m.queue = []) :
    Turned m { m with loaded := true, keysLoaded := [], loops := loops }
  | ranQueued {task : CookieMonsterTask Url Id} {queue : List (CookieMonsterTask Url Id)}
    {loops : List (Loop Url Id (List UInt8))} (h : m.loops = .invokeQueue :: loops) (hqueue : m.queue = task :: queue) :
    Turned m { m with queue := queue, ran := m.ran ++ [task] }

theorem turned_turn {m : CookieMonster Url Id (List UInt8) (CookieRow Columns)} (h : m.loops ≠ []) : Turned m m.turn := by
  unfold CookieMonster.turn
  split
  · next hnil => exact absurd hnil h
  · next key loops heq => exact .ended heq
  · next key task tasks loops heq => exact .ran heq
  · next loops heq =>
    split
    · next hqueue => exact .loaded heq hqueue
    · next task queue hqueue => exact .ranQueued heq hqueue

namespace CookieLoad

variable {s s' : CookieLoad Id Columns}

def initTasks (s : CookieLoad Id Columns) : List DbTask := if s.monster.initialized then [] else [.loadAndNotify]

/-- A task that is submitted runs at once, or it waits for all cookies or for those of its key. -/
inductive Submitted (getDomainAndRegistry : List UInt8 → List UInt8) (s : CookieLoad Id Columns)
    (task : CookieMonsterTask Url Id) : CookieLoad Id Columns → Prop
  | ran {calls : List (StoreCall (List UInt8))}
    (h : s.monster.Bypasses (task.key (effectiveDomain getDomainAndRegistry))) :
    Submitted getDomainAndRegistry s task
      { monster :=
          { s.monster with
            initialized := true, storeCalls := calls, submitted := s.monster.submitted ++ [task],
            ran := s.monster.ran ++ [task] }
        backend := { s.backend with dbTasks := s.backend.dbTasks ++ s.initTasks } }
  | queued {calls : List (StoreCall (List UInt8))} (hkey : task.key (effectiveDomain getDomainAndRegistry) = none)
    (h : ¬s.monster.Bypasses none) :
    Submitted getDomainAndRegistry s task
      { monster :=
          { s.monster with
            initialized := true, storeCalls := calls, submitted := s.monster.submitted ++ [task],
            queue := s.monster.queue ++ [task] }
        backend := { s.backend with dbTasks := s.backend.dbTasks ++ s.initTasks } }
  | queuedForKey {calls : List (StoreCall (List UInt8))} {key : List UInt8}
    (hkey : task.key (effectiveDomain getDomainAndRegistry) = some key) (h : ¬s.monster.Bypasses (some key)) :
    Submitted getDomainAndRegistry s task
      { monster :=
          { s.monster with
            initialized := true, storeCalls := calls, submitted := s.monster.submitted ++ [task]
            tasksQueued :=
              Function.update s.monster.tasksQueued key (some ((s.monster.tasksQueued key).getD [] ++ [task])) }
        backend :=
          { s.backend with
            dbTasks := s.backend.dbTasks ++
              (s.initTasks ++ if s.monster.tasksQueued key = none then [.loadKeyAndNotify key] else []) } }

theorem initIfNecessary_true (m : CookieMonster Url Id (List UInt8) (CookieRow Columns)) :
    m.initIfNecessary true =
      { m with storeCalls := m.storeCalls ++ (if m.initialized then [] else [.load]), initialized := true } := by
  obtain ⟨initialized, loaded, keysLoaded, tasksQueued, queue, storeCalls, storedCookies, loops, submitted, ran⟩ := m
  cases initialized with
  | true =>
    rw [if_pos rfl, List.append_nil]
    rfl
  | false => rfl

theorem submitted_submit (getDomainAndRegistry : List UInt8 → List UInt8) (s : CookieLoad Id Columns)
    (task : CookieMonsterTask Url Id) :
    Submitted getDomainAndRegistry s task (s.submit getDomainAndRegistry task) := by
  have hinit := initIfNecessary_true s.monster
  have hpost : (if s.monster.initialized then [] else [StoreCall.load]).map Backend.post = s.initTasks := by
    rw [initTasks]
    split <;> rfl
  by_cases hbypass : (s.monster.initIfNecessary true).Bypasses (task.key (effectiveDomain getDomainAndRegistry))
  · have hsubmit := submit_of_bypasses hbypass
    rw [hinit] at hbypass hsubmit
    rw [CookieLoad.submit, hsubmit]
    dsimp only
    rw [List.drop_left, hpost]
    exact .ran hbypass
  cases hkey : task.key (effectiveDomain getDomainAndRegistry) with
  | none =>
    rw [hkey] at hbypass
    have hsubmit := submit_of_none hkey hbypass
    rw [hinit] at hbypass hsubmit
    rw [CookieLoad.submit, hsubmit]
    dsimp only
    rw [List.drop_left, hpost]
    exact .queued hkey hbypass
  | some key =>
    rw [hkey] at hbypass
    obtain ⟨calls, hsubmit, hcalls⟩ := submit_of_some hkey hbypass
    rw [hinit] at hbypass hsubmit
    rw [CookieLoad.submit, hsubmit]
    dsimp only
    rw [List.append_assoc, List.drop_left, List.map_append, hpost, hcalls]
    have hcall : (if s.monster.tasksQueued key = none then [StoreCall.loadCookiesForKey key] else []).map Backend.post =
        if s.monster.tasksQueued key = none then [.loadKeyAndNotify key] else [] := by
      split <;> rfl
    rw [hcall]
    exact .queuedForKey hkey hbypass

/-! ## What has been handed over -/

def Least (getDomainAndRegistry : List UInt8 → List UInt8) (rows : List (CookieRow Columns)) (key : List UInt8) : Prop :=
  ∀ row ∈ rows, key ≤ getDomainAndRegistry row.hostKey

structure Fresh (s : CookieLoad Id Columns) : Prop where
  keysToLoad : s.backend.keysToLoad = []
  cookies : s.backend.cookies = []
  ioTasks : s.backend.ioTasks = []
  storedCookies : s.monster.storedCookies = []
  loops : s.monster.loops = []
  keysLoaded : s.monster.keysLoaded = []
  loaded : s.monster.loaded = false

structure HandsOver (getDomainAndRegistry : List UInt8 → List UInt8) (rows : List (CookieRow Columns))
    (s : CookieLoad Id Columns) : Prop where
  database (h : s.backend.initialized = true) : s.backend.Rows getDomainAndRegistry rows s.monster.storedCookies
  least (h : s.backend.initialized = true) {key : List UInt8} (hleast : Least getDomainAndRegistry rows key) :
    get? key s.backend.keysToLoad = none
  fresh (h : s.backend.initialized = false) : s.Fresh
  taken {key : List UInt8} (h : .notifyKeyLoaded key ∈ s.backend.ioTasks) : get? key s.backend.keysToLoad = none
  keysLoaded {key : List UInt8} (h : key ∈ s.monster.keysLoaded) : get? key s.backend.keysToLoad = none ∧
    ∀ row ∈ s.backend.cookies, getDomainAndRegistry row.hostKey ≠ key ∧
      ¬Least getDomainAndRegistry rows (getDomainAndRegistry row.hostKey)
  allTaken (h : .notifyLoaded ∈ s.backend.ioTasks ∨ .invokeQueue ∈ s.monster.loops ∨ s.monster.loaded = true) :
    s.backend.keysToLoad = []
  allLoaded (h : .invokeQueue ∈ s.monster.loops ∨ s.monster.loaded = true) : s.backend.cookies = []

theorem handsOver_new (getDomainAndRegistry : List UInt8 → List UInt8) (rows : List (CookieRow Columns)) :
    HandsOver getDomainAndRegistry rows ({ monster := .new, backend := .new } : CookieLoad Id Columns) where
  database h := by cases h
  least h := by cases h
  fresh _ := ⟨rfl, rfl, rfl, rfl, rfl, rfl, rfl⟩
  taken h := by cases h
  keysLoaded h := by cases h
  allTaken _ := rfl
  allLoaded _ := rfl

theorem HandsOver.congr (h : s.HandsOver getDomainAndRegistry rows)
    (hinit : s'.backend.initialized = s.backend.initialized) (hkeys : s'.backend.keysToLoad = s.backend.keysToLoad)
    (hcookies : s'.backend.cookies = s.backend.cookies) (hio : s'.backend.ioTasks = s.backend.ioTasks)
    (hstored : s'.monster.storedCookies = s.monster.storedCookies)
    (hkeysLoaded : ∀ key ∈ s'.monster.keysLoaded, key ∈ s.monster.keysLoaded)
    (hall : .invokeQueue ∈ s'.monster.loops ∨ s'.monster.loaded = true →
      .invokeQueue ∈ s.monster.loops ∨ s.monster.loaded = true)
    (hfresh : s.backend.initialized = false → s'.Fresh) : s'.HandsOver getDomainAndRegistry rows := by
  refine ⟨fun hinit' => ?_, fun hinit' {key} hleast => ?_, fun hinit' => ?_, fun {key} hmem => ?_, fun {key} hmem => ?_,
    fun hor => ?_, fun hor => ?_⟩
  · have hrows := h.database (hinit ▸ hinit')
    rw [hstored]
    exact ⟨hkeys ▸ hrows.sorted, hkeys ▸ hrows.domains, by rw [hkeys, hcookies]; exact hrows.handed⟩
  · rw [hkeys]
    exact h.least (hinit ▸ hinit') hleast
  · exact hfresh (hinit ▸ hinit')
  · rw [hkeys]
    exact h.taken (hio ▸ hmem)
  · rw [hkeys, hcookies]
    exact h.keysLoaded (hkeysLoaded key hmem)
  · rw [hkeys]
    exact h.allTaken (hor.imp (fun hmem => hio ▸ hmem) hall)
  · rw [hcookies]
    exact h.allLoaded (hall hor)

theorem HandsOver.submit (h : s.HandsOver getDomainAndRegistry rows) {task : CookieMonsterTask Url Id}
    (hsubmit : Submitted getDomainAndRegistry s task s') : s'.HandsOver getDomainAndRegistry rows := by
  have hfresh (hinit : s.backend.initialized = false) : s'.Fresh := by
    obtain ⟨hkeysToLoad, hcookies, hioTasks, hstored, hloops, hkeysLoaded, hloaded⟩ := h.fresh hinit
    cases hsubmit with
    | ran | queued | queuedForKey => exact ⟨hkeysToLoad, hcookies, hioTasks, hstored, hloops, hkeysLoaded, hloaded⟩
  cases hsubmit with
  | ran | queued | queuedForKey => exact h.congr rfl rfl rfl rfl rfl (fun _ hmem => hmem) id hfresh

theorem HandsOver.turn (h : s.HandsOver getDomainAndRegistry rows) (hloops : s.monster.loops ≠ []) :
    ({ s with monster := s.monster.turn } : CookieLoad Id Columns).HandsOver getDomainAndRegistry rows := by
  have hfresh (hinit : s.backend.initialized = false) :
      ({ s with monster := s.monster.turn } : CookieLoad Id Columns).Fresh := absurd (h.fresh hinit).loops hloops
  have hturn := turned_turn hloops
  generalize s.monster.turn = m at hturn hfresh
  cases hturn with
  | ended heq =>
    refine h.congr rfl rfl rfl rfl rfl (fun _ hmem => hmem) (fun hor => hor.imp_left fun hmem => ?_) hfresh
    exact heq ▸ List.mem_cons_of_mem _ hmem
  | ran heq =>
    refine h.congr rfl rfl rfl rfl rfl (fun _ hmem => hmem) (fun hor => hor.imp_left fun hmem => ?_) hfresh
    rcases List.mem_cons.1 hmem with hhead | hmem
    · cases hhead
    · exact heq ▸ List.mem_cons_of_mem _ hmem
  | loaded heq hqueue =>
    refine h.congr rfl rfl rfl rfl rfl (fun _ hmem => ?_) (fun _ => .inl (heq ▸ List.mem_cons_self)) hfresh
    cases hmem
  | ranQueued heq hqueue => exact h.congr rfl rfl rfl rfl rfl (fun _ hmem => hmem) id hfresh

/-! ## The DB thread -/

theorem HandsOver.dbTasks (h : s.HandsOver getDomainAndRegistry rows) (dbTasks : List DbTask) :
    ({ s with backend := { s.backend with dbTasks := dbTasks } } : CookieLoad Id Columns).HandsOver
      getDomainAndRegistry rows := by
  refine h.congr rfl rfl rfl rfl rfl (fun _ hmem => hmem) id fun hinit => ?_
  obtain ⟨hkeysToLoad, hcookies, hioTasks, hstored, hloops, hkeysLoaded, hloaded⟩ := h.fresh hinit
  exact ⟨hkeysToLoad, hcookies, hioTasks, hstored, hloops, hkeysLoaded, hloaded⟩

theorem HandsOver.loads (h : s.HandsOver getDomainAndRegistry rows) (hinit : s.backend.initialized = true)
    {b : Backend Columns} (hloads : Loads rows s.backend b) :
    ({ s with backend := b } : CookieLoad Id Columns).HandsOver getDomainAndRegistry rows := by
  have hrows := h.database hinit
  refine ⟨fun _ => hrows.loads hloads, fun _ {key} hleast => hloads.get? (h.least hinit hleast), fun hfalse => ?_,
    fun {key} hmem => hloads.get? (h.taken (hloads.ioTasks ▸ hmem)), fun {key} hmem => ?_, fun hor => ?_, fun hor => ?_⟩
  · rw [hloads.initialized, hinit] at hfalse
    cases hfalse
  · obtain ⟨hnone, hrest⟩ := h.keysLoaded hmem
    refine ⟨hloads.get? hnone, fun row hrow => ?_⟩
    rcases hloads.mem_cookies hrows hrow with hold | hnew
    · exact hrest row hold
    · refine ⟨fun heq => hnew (heq ▸ hnone), fun hleast => hnew (h.least hinit hleast)⟩
  · have hnil := h.allTaken (hor.imp_left fun hmem => hloads.ioTasks ▸ hmem)
    dsimp only
    rw [hloads.keysToLoad hnil, hnil]
  · dsimp only
    rw [hloads.keysToLoad (h.allTaken (.inr hor)), h.allLoaded hor]

/-- **When a database is opened, the rows of the first key are loaded.** -/
theorem HandsOver.openDatabase (h : s.HandsOver getDomainAndRegistry rows) (hinit : s.backend.initialized = false) :
    ({ s with backend := (s.backend.initializeDatabase getDomainAndRegistry rows).loadFirst rows } :
      CookieLoad Id Columns).HandsOver getDomainAndRegistry rows := by
  obtain ⟨hkeysToLoad, hcookies, hioTasks, hstored, hloops, hkeysLoaded, hloaded⟩ := h.fresh hinit
  have hopen : s.backend.initializeDatabase getDomainAndRegistry rows = { s.backend with
        keysToLoad := (distinctHostKeys rows).foldl (addDomain getDomainAndRegistry) [], initialized := true } := by
    rw [initializeDatabase, hinit, hkeysToLoad]
    rfl
  rw [hopen]
  generalize hb : ({ s.backend with
    keysToLoad := (distinctHostKeys rows).foldl (addDomain getDomainAndRegistry) [], initialized := true } : Backend Columns) = b
  have hkeys : b.keysToLoad = (distinctHostKeys rows).foldl (addDomain getDomainAndRegistry) [] := hb ▸ rfl
  have hrows : b.Rows getDomainAndRegistry rows [] := rows_foldl_addDomain _ _ (hb ▸ hcookies) hkeys
  have hloads := loads_loadFirst hrows.sorted rows
  have hio : (b.loadFirst rows).ioTasks = [] := hloads.ioTasks.trans (hb ▸ hioTasks)
  refine ⟨fun _ => ?_, fun _ {key} hleast => ?_, fun hfalse => ?_, fun {key} hmem => ?_, fun {key} hmem => ?_, fun hor => ?_,
    fun hor => ?_⟩
  · dsimp only
    rw [hstored]
    exact hrows.loads hloads
  · dsimp only
    have hsorted := hrows.sorted
    unfold loadFirst
    split
    · next hnil =>
      rw [hnil]
      rfl
    · next first domains keysToLoad heq =>
      rw [heq] at hsorted
      have hlt := (List.pairwise_cons.1 hsorted).1
      obtain ⟨row, hrow, hkey⟩ := exists_row_of_foldl rows (hkeys ▸ heq ▸ List.mem_cons_self)
      have hle : key ≤ first := (hleast row hrow).trans_eq hkey
      exact get?_eq_none_of_lt fun e he => hle.trans_lt (hlt e he)
  · have htrue : (b.loadFirst rows).initialized = true := hloads.initialized.trans (hb ▸ rfl)
    rw [htrue] at hfalse
    cases hfalse
  · rw [hio] at hmem
    cases hmem
  · rw [hkeysLoaded] at hmem
    cases hmem
  · dsimp only at hor
    rw [hio, hloops, hloaded] at hor
    rcases hor with hmem | hmem | htrue
    · cases hmem
    · cases hmem
    · cases htrue
  · dsimp only at hor
    rw [hloops, hloaded] at hor
    rcases hor with hmem | htrue
    · cases hmem
    · cases htrue

def Says (b : Backend Columns) : IoTask → Prop
  | .notifyLoaded => b.keysToLoad = []
  | .notifyKeyLoaded key => get? key b.keysToLoad = none

theorem HandsOver.post (h : s.HandsOver getDomainAndRegistry rows) (hinit : s.backend.initialized = true) {task : IoTask}
    (hload : Says s.backend task) :
    ({ s with backend := { s.backend with ioTasks := s.backend.ioTasks ++ [task] } } : CookieLoad Id Columns).HandsOver
      getDomainAndRegistry rows := by
  refine ⟨fun hinit => ?_, h.least, fun hfalse => ?_, fun {key} hmem => ?_, h.keysLoaded, fun hor => ?_, h.allLoaded⟩
  · have hrows := h.database hinit
    exact ⟨hrows.sorted, hrows.domains, hrows.handed⟩
  · rw [hinit] at hfalse
    cases hfalse
  · rcases List.mem_append.1 hmem with hmem | hmem
    · exact h.taken hmem
    · cases List.mem_singleton.1 hmem
      exact hload
  · rcases hor with hmem | hor
    · rcases List.mem_append.1 hmem with hmem | hmem
      · exact h.allTaken (.inl hmem)
      · cases List.mem_singleton.1 hmem
        exact hload
    · exact h.allTaken (.inr hor)

/-- What a task of the DB thread comes to: a load, after which the chain goes on or a notification is posted. -/
inductive RanDbTask (b : Backend Columns) : Backend Columns → Prop
  | chained (h : b.keysToLoad ≠ []) : RanDbTask b { b with dbTasks := b.dbTasks ++ [.chainLoadCookies] }
  | notified {task : IoTask} (h : Says b task) : RanDbTask b { b with ioTasks := b.ioTasks ++ [task] }

theorem ranDbTask_chain (b : Backend Columns) : RanDbTask (b.loadFirst rows) (b.chainLoadCookies rows) := by
  dsimp only [chainLoadCookies]
  split
  · next hpos => exact .chained (List.ne_nil_of_length_pos hpos)
  · next hpos => exact .notified (List.eq_nil_of_length_eq_zero (Nat.eq_zero_of_not_pos hpos))

theorem HandsOver.ranDbTask (h : s.HandsOver getDomainAndRegistry rows) (hinit : s.backend.initialized = true)
    {b : Backend Columns} (hran : RanDbTask s.backend b) :
    ({ s with backend := b } : CookieLoad Id Columns).HandsOver getDomainAndRegistry rows := by
  cases hran with
  | chained => exact h.dbTasks _
  | notified hload => exact h.post hinit hload

/-- **A task of the DB thread keeps what has been handed over, if the database is opened by `LoadAndNotifyOnDBThread`.** -/
theorem HandsOver.runDbTask (h : s.HandsOver getDomainAndRegistry rows) {task : DbTask}
    (hfirst : s.backend.initialized = false → task = .loadAndNotify) :
    ({ s with backend := s.backend.runDbTask getDomainAndRegistry rows task } : CookieLoad Id Columns).HandsOver
      getDomainAndRegistry rows := by
  cases hinit : s.backend.initialized with
  | false =>
    rw [hfirst hinit]
    have hopened := h.openDatabase hinit
    refine hopened.ranDbTask ?_ (ranDbTask_chain _)
    exact (initialized_loadFirst _ _).trans (initialized_initializeDatabase _ _ _)
  | true =>
    have hopen : s.backend.initializeDatabase getDomainAndRegistry rows = s.backend := if_pos hinit
    have hfirst := loads_loadFirst (h.database hinit).sorted rows
    have hchain := (h.loads hinit hfirst).ranDbTask (hfirst.initialized.trans hinit) (ranDbTask_chain s.backend)
    cases task with
    | loadAndNotify =>
      rw [Backend.runDbTask, loadAndNotify, hopen]
      exact hchain
    | chainLoadCookies => exact hchain
    | loadKeyAndNotify key =>
      obtain ⟨hloads, hnone⟩ := loads_loadKey rows key s.backend
      rw [Backend.runDbTask, loadKeyAndNotify, hopen]
      have hload : Says (s.backend.loadKey rows key) (.notifyKeyLoaded key) := hnone
      exact (h.loads hinit hloads).post (hloads.initialized.trans hinit) hload

/-! ## The IO thread -/

theorem HandsOver.notify (h : s.HandsOver getDomainAndRegistry rows) {task : IoTask} {ioTasks : List IoTask}
    (hio : s.backend.ioTasks = task :: ioTasks) :
    (({ s with backend := { s.backend with ioTasks := ioTasks } } : CookieLoad Id Columns).notify task).HandsOver
      getDomainAndRegistry rows := by
  have hinit : s.backend.initialized = true := by
    by_contra hfalse
    have hnil := (h.fresh (Bool.eq_false_iff.2 hfalse)).ioTasks
    rw [hio] at hnil
    cases hnil
  have hmem : task ∈ s.backend.ioTasks := hio ▸ List.mem_cons_self
  have hrest {other : IoTask} (hother : other ∈ ioTasks) : other ∈ s.backend.ioTasks := hio ▸ List.mem_cons_of_mem _ hother
  cases task with
  | notifyLoaded =>
    have hnil := h.allTaken (.inl hmem)
    refine ⟨fun _ => (h.database hinit).notify rfl rfl, h.least, fun hfalse => ?_, fun hother => h.taken (hrest hother),
      fun hkey => ⟨(h.keysLoaded hkey).1, fun row hrow => ?_⟩, fun _ => hnil, fun _ => rfl⟩
    · exact nomatch hinit.symm.trans hfalse
    · cases hrow
  | notifyKeyLoaded key =>
    have hloops : .invokeQueue ∈ (s.monster.onKeyLoaded key s.backend.cookies).loops → .invokeQueue ∈ s.monster.loops := by
      dsimp only [onKeyLoaded]
      split
      · exact id
      · intro hin
        rcases List.mem_cons.1 hin with hhead | hin
        · cases hhead
        · exact hin
    have hstored : (s.monster.onKeyLoaded key s.backend.cookies).storedCookies =
        s.monster.storedCookies ++ s.backend.cookies := by
      dsimp only [onKeyLoaded]
      split <;> rfl
    have hkeysLoaded : (s.monster.onKeyLoaded key s.backend.cookies).keysLoaded = key :: s.monster.keysLoaded := by
      dsimp only [onKeyLoaded]
      split <;> rfl
    have hloaded : (s.monster.onKeyLoaded key s.backend.cookies).loaded = s.monster.loaded := by
      dsimp only [onKeyLoaded]
      split <;> rfl
    refine ⟨fun _ => ?_, h.least, fun hfalse => ?_, fun hother => h.taken (hrest hother), fun {other} hkey => ?_,
      fun hor => ?_, fun _ => rfl⟩
    · dsimp only [CookieLoad.notify]
      rw [hstored]
      exact (h.database hinit).notify rfl rfl
    · exact nomatch hinit.symm.trans hfalse
    · refine ⟨?_, fun row hrow => by cases hrow⟩
      dsimp only [CookieLoad.notify] at hkey
      rw [hkeysLoaded] at hkey
      rcases List.mem_cons.1 hkey with rfl | hkey
      · exact h.taken hmem
      · exact (h.keysLoaded hkey).1
    · dsimp only [CookieLoad.notify] at hor
      rw [hloaded] at hor
      exact h.allTaken (hor.imp hrest fun hor => hor.imp_left hloops)

end CookieLoad

end Chromium.Net.Cookies
