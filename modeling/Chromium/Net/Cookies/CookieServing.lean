import Chromium.Net.Cookies.CookieLoading
import Chromium.Net.Base.RegistryControlledDomain

/-!
# Tasks that find the cookies loaded

A task for a URL waits for the key that `GetEffectiveDomain` gives, and finds what is filed under the key that `GetKey`
gives.  All rows of the one key are handed over before the task runs if, and only if, the database has them under the other
key, or under the first of all keys (`loading_spec`).  For a URL of another scheme than http and https the keys may differ
(`servedEarly_file`).
-/

namespace Chromium.Net.Cookies

open Lib Lib.SortedMap Backend CookieMonster
open List (length_append length_cons length_singleton mem_append mem_append_left mem_append_right
  mem_cons mem_cons_self mem_singleton)

variable {Id Columns : Type} {getDomainAndRegistry : List UInt8 → List UInt8} {scheme : ExpiryAndKeyScheme}
  {rows : List (CookieRow Columns)}

/-! ## What a task needs -/

/-- A row that is filed where a task for the URL looks; a task for no URL looks everywhere. -/
def needs (getDomainAndRegistry : List UInt8 → List UInt8) (scheme : ExpiryAndKeyScheme) (url : Option Url)
    (row : CookieRow Columns) : Bool :=
  match url with
  | none => true
  | some url => getKey getDomainAndRegistry scheme row.hostKey = getKey getDomainAndRegistry scheme url.host

def Served (getDomainAndRegistry : List UInt8 → List UInt8) (scheme : ExpiryAndKeyScheme)
    (rows stored : List (CookieRow Columns)) (task : CookieMonsterTask Url Id) : Prop :=
  (rows.filter (needs getDomainAndRegistry scheme task.url)).Subperm stored

/-- The rows with the key of the URL's host are loaded by the key that a task for the URL waits for, or by the first key. -/
def Agrees (getDomainAndRegistry : List UInt8 → List UInt8) (scheme : ExpiryAndKeyScheme) (rows : List (CookieRow Columns))
    (url : Url) : Prop :=
  ∀ row ∈ rows, getKey getDomainAndRegistry scheme row.hostKey = getKey getDomainAndRegistry scheme url.host →
    getDomainAndRegistry row.hostKey = CookieLoad.effectiveDomain getDomainAndRegistry url ∨
      CookieLoad.Least getDomainAndRegistry rows (getDomainAndRegistry row.hostKey)

def SubmitsIn (urls : Url → Prop) (_ : CookieLoad Id Columns) : LoadEvent Id → Prop
  | .submit task => ∀ url ∈ task.url, urls url
  | _ => True

namespace CookieLoad

def Quiescent (s : CookieLoad Id Columns) : Prop :=
  s.backend.dbTasks = [] ∧ s.backend.ioTasks = [] ∧ s.monster.loops = []

def work (getDomainAndRegistry : List UInt8 → List UInt8) (rows : List (CookieRow Columns)) (s : CookieLoad Id Columns) : ℕ :=
  (s.monster.submitted.length - s.monster.ran.length) + s.monster.loops.length + 2 * s.backend.ioTasks.length +
    3 * s.backend.dbTasks.length + 3 * (s.backend.initializeDatabase getDomainAndRegistry rows).keysToLoad.length

/-- Rows are handed over once, and tasks run once and find the rows that they need. -/
structure Delivers (getDomainAndRegistry : List UInt8 → List UInt8) (scheme : ExpiryAndKeyScheme)
    (rows : List (CookieRow Columns)) (s : CookieLoad Id Columns) : Prop where
  rowsOnce : s.monster.storedCookies.Subperm rows
  tasksOnce : s.monster.ran.Subperm s.monster.submitted
  served {task : CookieMonsterTask Url Id} (h : task ∈ s.monster.ran) :
    Served getDomainAndRegistry scheme rows s.monster.storedCookies task
  goesOn (h : ¬s.Quiescent) : ∃ e s', (∀ task, e ≠ .submit task) ∧ s.next getDomainAndRegistry rows e = some s'
  ends {e : LoadEvent Id} {s' : CookieLoad Id Columns} (he : ∀ task, e ≠ .submit task)
    (h : s.next getDomainAndRegistry rows e = some s') :
    s'.work getDomainAndRegistry rows < s.work getDomainAndRegistry rows
  allRows (h : s.Quiescent) (hsubmitted : s.monster.submitted ≠ []) : s.monster.storedCookies.Perm rows
  allTasks (h : s.Quiescent) : s.monster.ran.Perm s.monster.submitted

variable {s s' : CookieLoad Id Columns}

variable {url : Url} {row : CookieRow Columns} {b : Backend Columns}
  {task : CookieMonsterTask Url Id}

/-! ## What is posted -/

/-- Whatever waits has something posted that it waits for. -/
structure Posts (s : CookieLoad Id Columns) : Prop where
  quiet (h : s.monster.initialized = false) :
    s.backend.initialized = false ∧ s.backend.dbTasks = [] ∧ s.monster.submitted = []
  first (h : s.backend.initialized = false) (hmonster : s.monster.initialized = true) :
    ∃ dbTasks, s.backend.dbTasks = .loadAndNotify :: dbTasks
  loads (h : s.monster.initialized = true) :
    (.loadAndNotify ∈ s.backend.dbTasks ∨ .chainLoadCookies ∈ s.backend.dbTasks ∨ .notifyLoaded ∈ s.backend.ioTasks) ∨
      .invokeQueue ∈ s.monster.loops ∨ s.monster.loaded = true
  tasksQueued {key : List UInt8} (h : s.monster.tasksQueued key ≠ none) :
    .loadKeyAndNotify key ∈ s.backend.dbTasks ∨ .notifyKeyLoaded key ∈ s.backend.ioTasks

theorem posts_new : Posts ({ monster := .new, backend := .new } : CookieLoad Id Columns) where
  quiet _ := ⟨rfl, rfl, rfl⟩
  first _ h := by cases h
  loads h := by cases h
  tasksQueued h := absurd rfl h

theorem Posts.submit (h : s.Posts) (hsubmit : Submitted getDomainAndRegistry s task s') : s'.Posts := by
  obtain ⟨more, hdb, hio, hinit, hmonster, hloops, hloaded⟩ : ∃ more,
      s'.backend.dbTasks = s.backend.dbTasks ++ (s.initTasks ++ more) ∧ s'.backend.ioTasks = s.backend.ioTasks ∧
      s'.backend.initialized = s.backend.initialized ∧ s'.monster.initialized = true ∧
      s'.monster.loops = s.monster.loops ∧ s'.monster.loaded = s.monster.loaded := by
    cases hsubmit with
    | ran | queued => exact ⟨[], by rw [List.append_nil], rfl, rfl, rfl, rfl, rfl⟩
    | queuedForKey => exact ⟨_, rfl, rfl, rfl, rfl, rfl, rfl⟩
  have hold {task : DbTask} (hmem : task ∈ s.backend.dbTasks) : task ∈ s'.backend.dbTasks :=
    hdb ▸ mem_append_left _ hmem
  refine ⟨fun hfalse => ?_, fun hclosed _ => ?_, fun _ => ?_, fun {key} hqueued => ?_⟩
  · exact nomatch hmonster.symm.trans hfalse
  · rw [hdb]
    cases hwas : s.monster.initialized with
    | true =>
      obtain ⟨dbTasks, heq⟩ := h.first (hinit ▸ hclosed) hwas
      exact ⟨_, by rw [heq, List.cons_append]⟩
    | false => exact ⟨more, by rw [(h.quiet hwas).2.1, initTasks, hwas]; rfl⟩
  · rw [hio, hloops, hloaded]
    cases hwas : s.monster.initialized with
    | true => exact (h.loads hwas).imp_left fun hor => hor.imp hold (Or.imp_left hold)
    | false =>
      refine .inl (.inl ?_)
      rw [hdb, initTasks, hwas]
      exact mem_append_right _ mem_cons_self
  · rw [hio]
    have hkeep (hne : s.monster.tasksQueued key ≠ none) :
        .loadKeyAndNotify key ∈ s'.backend.dbTasks ∨ .notifyKeyLoaded key ∈ s.backend.ioTasks :=
      (h.tasksQueued hne).imp_left hold
    cases hsubmit with
    | ran | queued => exact hkeep hqueued
    | @queuedForKey _ other hkey hnot =>
      by_cases hother : key = other
      · by_cases hnone : s.monster.tasksQueued key = none
        · refine .inl (mem_append_right _ (mem_append_right _ ?_))
          rw [← hother, if_pos hnone]
          exact mem_singleton.2 rfl
        · exact hkeep hnone
      · dsimp only at hqueued
        rw [Function.update_of_ne hother] at hqueued
        exact hkeep hqueued

/-- What a task of the DB thread leaves behind, when the database is open. -/
structure DbRan (task : DbTask) (b b' : Backend Columns) : Prop where
  initialized : b'.initialized = true
  dbTasks {other : DbTask} (h : other ∈ b.dbTasks) : other ∈ b'.dbTasks
  ioTasks {other : IoTask} (h : other ∈ b.ioTasks) : other ∈ b'.ioTasks
  chain (h : task = .loadAndNotify ∨ task = .chainLoadCookies) :
    .chainLoadCookies ∈ b'.dbTasks ∨ .notifyLoaded ∈ b'.ioTasks
  key {key : List UInt8} (h : task = .loadKeyAndNotify key) : .notifyKeyLoaded key ∈ b'.ioTasks
  length : 2 * b'.ioTasks.length + 3 * b'.dbTasks.length + 3 * b'.keysToLoad.length <
    2 * b.ioTasks.length + 3 * (b.dbTasks.length + 1) + 3 * b.keysToLoad.length

theorem loadFirst_frame (rows : List (CookieRow Columns)) (b : Backend Columns) :
    (b.loadFirst rows).dbTasks = b.dbTasks ∧ (b.loadFirst rows).ioTasks = b.ioTasks ∧
      ((b.loadFirst rows).keysToLoad = b.keysToLoad.tail) := by
  unfold loadFirst
  split
  · next hnil => exact ⟨rfl, rfl, by rw [hnil, List.tail_nil]⟩
  · next heq => exact ⟨rfl, rfl, by rw [heq, List.tail_cons]⟩

theorem dbRan_chain (hinit : b.initialized = true) {task : DbTask}
    (htask : ∀ key, task ≠ .loadKeyAndNotify key) : DbRan task b (b.chainLoadCookies rows) := by
  obtain ⟨hdb, hio, hkeys⟩ := loadFirst_frame rows b
  have hopen := (initialized_loadFirst rows b).trans hinit
  have hlength : (b.loadFirst rows).keysToLoad.length = b.keysToLoad.length - 1 := by rw [hkeys, List.length_tail]
  dsimp only [chainLoadCookies]
  split
  · next hpos =>
    refine ⟨hopen, fun hmem => ?_, fun hmem => hio ▸ hmem, fun _ => .inl ?_, fun h => absurd h (htask _), ?_⟩
    · exact mem_append_left _ (hdb ▸ hmem)
    · exact mem_append_right _ (mem_singleton.2 rfl)
    · dsimp only
      rw [length_append, length_singleton, hdb, hio]
      omega
  · refine ⟨hopen, fun hmem => hdb ▸ hmem, fun hmem => ?_, fun _ => .inr ?_, fun h => absurd h (htask _), ?_⟩
    · exact mem_append_left _ (hio ▸ hmem)
    · exact mem_append_right _ (mem_singleton.2 rfl)
    · dsimp only
      rw [length_append, length_singleton, hdb, hio]
      omega

theorem dbRan_runDbTask (getDomainAndRegistry : List UInt8 → List UInt8) (rows : List (CookieRow Columns)) {task : DbTask} (hfirst : b.initialized = false → task = .loadAndNotify) :
    DbRan task (b.initializeDatabase getDomainAndRegistry rows) (b.runDbTask getDomainAndRegistry rows task) := by
  have hinit := initialized_initializeDatabase getDomainAndRegistry rows b
  cases task with
  | loadAndNotify => exact dbRan_chain hinit fun _ => DbTask.noConfusion
  | chainLoadCookies =>
    have hopen : b.initializeDatabase getDomainAndRegistry rows = b := by
      cases hb : b.initialized with
      | true => exact if_pos hb
      | false => cases hfirst hb
    rw [hopen] at hinit ⊢
    exact dbRan_chain hinit fun _ => DbTask.noConfusion
  | loadKeyAndNotify key =>
    rw [runDbTask, loadKeyAndNotify]
    generalize b.initializeDatabase getDomainAndRegistry rows = b at hinit
    obtain ⟨hloads, -⟩ := loads_loadKey rows key b
    have hlength := hloads.length
    refine ⟨hloads.initialized.trans hinit, fun hmem => hloads.dbTasks ▸ hmem, fun hmem => ?_, fun h => ?_, fun h => ?_, ?_⟩
    · exact mem_append_left _ (hloads.ioTasks ▸ hmem)
    · rcases h with h | h <;> cases h
    · cases h
      exact mem_append_right _ (mem_singleton.2 rfl)
    · dsimp only
      rw [length_append, length_singleton, hloads.dbTasks, hloads.ioTasks]
      omega

theorem initializeDatabase_frame (getDomainAndRegistry : List UInt8 → List UInt8) (rows : List (CookieRow Columns))
    (b : Backend Columns) :
    (b.initializeDatabase getDomainAndRegistry rows).dbTasks = b.dbTasks ∧
      (b.initializeDatabase getDomainAndRegistry rows).ioTasks = b.ioTasks := by
  unfold initializeDatabase
  split <;> exact ⟨rfl, rfl⟩

theorem Posts.isFirst (h : s.Posts) {task : DbTask} {dbTasks : List DbTask} (hdb : s.backend.dbTasks = task :: dbTasks)
    (hclosed : s.backend.initialized = false) : task = .loadAndNotify := by
  have hmonster : s.monster.initialized = true := by
    by_contra hfalse
    have hnil := (h.quiet (Bool.eq_false_iff.2 hfalse)).2.1
    rw [hdb] at hnil
    cases hnil
  obtain ⟨rest, heq⟩ := h.first hclosed hmonster
  rw [hdb] at heq
  exact (List.cons.inj heq).1

theorem Posts.dbThread (h : s.Posts) {task : DbTask} {dbTasks : List DbTask} (hdb : s.backend.dbTasks = task :: dbTasks) :
    ({ s with backend := { s.backend with dbTasks := dbTasks }.runDbTask getDomainAndRegistry rows task } :
      CookieLoad Id Columns).Posts := by
  have hran := dbRan_runDbTask getDomainAndRegistry rows (b := { s.backend with dbTasks := dbTasks }) (h.isFirst hdb)
  obtain ⟨hframe, hframe'⟩ := initializeDatabase_frame getDomainAndRegistry rows { s.backend with dbTasks := dbTasks }
  generalize ({ s.backend with dbTasks := dbTasks } : Backend Columns).runDbTask getDomainAndRegistry rows task = b at hran
  have hdbTasks {other : DbTask} (hmem : other ∈ dbTasks) : other ∈ b.dbTasks := hran.dbTasks (hframe ▸ hmem)
  have hioTasks {other : IoTask} (hmem : other ∈ s.backend.ioTasks) : other ∈ b.ioTasks := hran.ioTasks (hframe' ▸ hmem)
  refine ⟨fun hfalse => ?_, fun hclosed => ?_, fun hmonster => ?_, fun {key} hqueued => ?_⟩
  · have hnil := (h.quiet hfalse).2.1
    rw [hdb] at hnil
    cases hnil
  · exact nomatch hran.initialized.symm.trans hclosed
  · refine (h.loads hmonster).imp_left fun hor => ?_
    rw [hdb] at hor
    rcases hor with hmem | hmem | hmem
    · rcases mem_cons.1 hmem with heq | hmem
      · exact .inr (hran.chain (.inl heq.symm))
      · exact .inl (hdbTasks hmem)
    · rcases mem_cons.1 hmem with heq | hmem
      · exact .inr (hran.chain (.inr heq.symm))
      · exact .inr (.inl (hdbTasks hmem))
    · exact .inr (.inr (hioTasks hmem))
  · have hor := h.tasksQueued hqueued
    rw [hdb] at hor
    rcases hor with hmem | hmem
    · rcases mem_cons.1 hmem with heq | hmem
      · exact .inr (hran.key heq.symm)
      · exact .inl (hdbTasks hmem)
    · exact .inr (hioTasks hmem)

theorem Posts.ioThread (h : s.Posts) {task : IoTask} {ioTasks : List IoTask} (hio : s.backend.ioTasks = task :: ioTasks)
    (hopen : s.backend.initialized = true) :
    (({ s with backend := { s.backend with ioTasks := ioTasks } } : CookieLoad Id Columns).notify task).Posts := by
  have hmonster : s.monster.initialized = true := by
    by_contra hfalse
    exact nomatch hopen.symm.trans (h.quiet (Bool.eq_false_iff.2 hfalse)).1
  have hloads := h.loads hmonster
  rw [hio] at hloads
  cases task with
  | notifyLoaded =>
    refine ⟨fun hfalse => ?_, fun hclosed => ?_, fun _ => .inr (.inl mem_cons_self), fun {key} hqueued => ?_⟩
    · exact nomatch hmonster.symm.trans hfalse
    · exact nomatch hopen.symm.trans hclosed
    · have hor := h.tasksQueued hqueued
      rw [hio] at hor
      exact hor.imp_right fun hmem => (mem_cons.1 hmem).resolve_left IoTask.noConfusion
  | notifyKeyLoaded key =>
    obtain ⟨hinit, hloops, hloaded⟩ :
        (s.monster.onKeyLoaded key s.backend.cookies).initialized = s.monster.initialized ∧
        (∀ loop ∈ s.monster.loops, loop ∈ (s.monster.onKeyLoaded key s.backend.cookies).loops) ∧
        (s.monster.onKeyLoaded key s.backend.cookies).loaded = s.monster.loaded := by
      dsimp only [onKeyLoaded]
      split
      · exact ⟨rfl, fun _ => id, rfl⟩
      · exact ⟨rfl, fun _ => List.mem_cons_of_mem _, rfl⟩
    have hqueue {other : List UInt8} (hqueued : (s.monster.onKeyLoaded key s.backend.cookies).tasksQueued other ≠ none) :
        other ≠ key ∧ s.monster.tasksQueued other ≠ none := by
      dsimp only [onKeyLoaded] at hqueued
      cases hkey : s.monster.tasksQueued key with
      | none =>
        rw [hkey] at hqueued
        dsimp only at hqueued
        refine ⟨?_, hqueued⟩
        rintro rfl
        exact hqueued hkey
      | some tasks =>
        rw [hkey] at hqueued
        dsimp only at hqueued
        have hne : other ≠ key := by
          rintro rfl
          exact hqueued (Function.update_self ..)
        rw [Function.update_of_ne hne] at hqueued
        exact ⟨hne, hqueued⟩
    refine ⟨fun hfalse => ?_, fun hclosed => ?_, fun _ => ?_, fun {other} hqueued => ?_⟩
    · exact absurd (hinit.symm.trans hfalse) fun heq => nomatch hmonster.symm.trans heq
    · exact nomatch hopen.symm.trans hclosed
    · dsimp only [CookieLoad.notify]
      rw [hloaded]
      refine hloads.imp (Or.imp_right (Or.imp_right fun hmem => ?_)) (Or.imp_left (hloops _))
      exact (mem_cons.1 hmem).resolve_left IoTask.noConfusion
    · obtain ⟨hne, hold⟩ := hqueue hqueued
      have hor := h.tasksQueued hold
      rw [hio] at hor
      refine hor.imp_right fun hmem => (mem_cons.1 hmem).resolve_left fun heq => ?_
      cases heq
      exact hne rfl

theorem Posts.turn (h : s.Posts) (hloops : s.monster.loops ≠ []) :
    ({ s with monster := s.monster.turn } : CookieLoad Id Columns).Posts := by
  have hturn := turned_turn hloops
  generalize s.monster.turn = m at hturn
  cases hturn with
  | ended heq =>
    refine ⟨h.quiet, h.first, fun hinit => (h.loads hinit).imp_right (Or.imp_left fun hmem => ?_), h.tasksQueued⟩
    rw [heq] at hmem
    exact (mem_cons.1 hmem).resolve_left fun hhead => by cases hhead
  | ran heq =>
    refine ⟨h.quiet, h.first, fun hinit => (h.loads hinit).imp_right (Or.imp_left fun hmem => ?_), h.tasksQueued⟩
    rw [heq] at hmem
    exact List.mem_cons_of_mem _ ((mem_cons.1 hmem).resolve_left fun hhead => by cases hhead)
  | loaded => exact ⟨h.quiet, h.first, fun _ => .inr (.inr rfl), h.tasksQueued⟩
  | ranQueued => exact ⟨h.quiet, h.first, h.loads, h.tasksQueued⟩

/-! ## What runs -/

/-- Each task has run or waits, and one that has run had its rows. -/
structure Runs (getDomainAndRegistry : List UInt8 → List UInt8) (scheme : ExpiryAndKeyScheme)
    (rows : List (CookieRow Columns)) (s : CookieLoad Id Columns) : Prop where
  filed : s.monster.Filed (effectiveDomain getDomainAndRegistry)
  seen (key : Option (List UInt8)) : (s.monster.seen (effectiveDomain getDomainAndRegistry) key).Perm
    (ofKey (effectiveDomain getDomainAndRegistry) key s.monster.submitted)
  agrees {task : CookieMonsterTask Url Id} (h : task ∈ s.monster.submitted) {url : Url} (hurl : task.url = some url) :
    Agrees getDomainAndRegistry scheme rows url
  served {task : CookieMonsterTask Url Id} (h : task ∈ s.monster.ran) :
    Served getDomainAndRegistry scheme rows s.monster.storedCookies task

theorem subperm_of_ofKey (eff : Url → List UInt8) {tasks tasks' : List (CookieMonsterTask Url Id)}
    (h : ∀ key, (ofKey eff key tasks).Subperm (ofKey eff key tasks')) : tasks.Subperm tasks' := by
  classical
  refine List.subperm_ext_iff.2 fun task hmem => ?_
  have hof (tasks : List (CookieMonsterTask Url Id)) :
      (ofKey eff (task.key eff) tasks).count task = tasks.count task := List.count_filter (decide_eq_true rfl)
  have hcount := (h (task.key eff)).count_le task
  rw [hof, hof] at hcount
  exact hcount

theorem Runs.tasksOnce (h : s.Runs getDomainAndRegistry scheme rows) : s.monster.ran.Subperm s.monster.submitted :=
  subperm_of_ofKey _ fun key => (List.sublist_append_left _ _).subperm.trans (h.seen key).subperm

theorem Runs.mem_submitted (h : s.Runs getDomainAndRegistry scheme rows)
    {key : Option (List UInt8)} (hmem : task ∈ s.monster.waiting key) : task ∈ s.monster.submitted :=
  List.mem_of_mem_filter ((h.seen key).mem_iff.1 (mem_append_right _ hmem))

/-- **What was handed over before a task that does not wait runs is what it needs.** -/
theorem HandsOver.served (h : s.HandsOver getDomainAndRegistry rows)
    (hbypass : s.monster.Bypasses (task.key (effectiveDomain getDomainAndRegistry)))
    (hagrees : ∀ url, task.url = some url → Agrees getDomainAndRegistry scheme rows url) :
    Served getDomainAndRegistry scheme rows s.monster.storedCookies task := by
  have hopen : s.backend.initialized = true := by
    by_contra hfalse
    have hfresh := h.fresh (Bool.eq_false_iff.2 hfalse)
    rcases hbypass with hloaded | ⟨key, -, hmem⟩
    · exact nomatch hfresh.loaded.symm.trans hloaded
    · rw [hfresh.keysLoaded] at hmem
      cases hmem
  have hrows := h.database hopen
  rcases hbypass with hloaded | ⟨key, hkey, hmem⟩
  · have hall := hrows.all (h.allTaken (.inr (.inr hloaded))) (h.allLoaded (.inr hloaded))
    exact List.filter_sublist.subperm.trans hall.symm.subperm
  · obtain ⟨hnone, hbuffer⟩ := h.keysLoaded hmem
    obtain ⟨url, hurl, rfl⟩ := Option.map_eq_some_iff.1 hkey
    have hneeds {row : CookieRow Columns} (hrow : row ∈ rows)
        (hneed : needs getDomainAndRegistry scheme task.url row = true) :
        getDomainAndRegistry row.hostKey = effectiveDomain getDomainAndRegistry url ∨
          Least getDomainAndRegistry rows (getDomainAndRegistry row.hostKey) := by
      rw [hurl] at hneed
      exact hagrees url hurl row hrow (decide_eq_true_iff.1 hneed)
    refine hrows.subperm_of (fun row hrow hneed => ?_) fun row hrow => ?_
    · rcases hneeds hrow hneed with heq | hleast
      · rw [heq]
        exact hnone
      · exact h.least hopen hleast
    · have hin : row ∈ rows := hrows.subperm.subset (mem_append_right _ hrow)
      refine Bool.eq_false_iff.2 fun hneed => ?_
      exact (hneeds hin hneed).elim (hbuffer row hrow).1 (hbuffer row hrow).2

theorem HandsOver.servedAll (h : s.HandsOver getDomainAndRegistry rows) (hmem : .invokeQueue ∈ s.monster.loops)
    (task : CookieMonsterTask Url Id) : Served getDomainAndRegistry scheme rows s.monster.storedCookies task := by
  have hopen : s.backend.initialized = true := by
    by_contra hfalse
    rw [(h.fresh (Bool.eq_false_iff.2 hfalse)).loops] at hmem
    cases hmem
  have hall := (h.database hopen).all (h.allTaken (.inr (.inl hmem))) (h.allLoaded (.inl hmem))
  exact List.filter_sublist.subperm.trans hall.symm.subperm

theorem runs_new : Runs getDomainAndRegistry scheme rows ({ monster := .new, backend := .new } : CookieLoad Id Columns) where
  filed := filed_new
  seen key := by cases key <;> exact List.Perm.refl _
  agrees h := by cases h
  served h := by cases h

theorem seen_perm_submit {m : CookieMonster Url Id (List UInt8) (CookieRow Columns)} {eff : Url → List UInt8}
    {key : Option (List UInt8)} (h : (m.seen eff key).Perm (ofKey eff key m.submitted)) (task : CookieMonsterTask Url Id) :
    ((m.submit true eff task).seen eff key).Perm (ofKey eff key (m.submit true eff task).submitted) := by
  rw [CookieMonster.submitted_submit]
  by_cases hbypass : (m.initIfNecessary true).Bypasses (task.key eff)
  · rw [seen_submit_of_bypasses hbypass]
    by_cases hkey : task.key eff = key
    · rw [ofKey_concat_of_eq hkey, ofKey_concat_of_eq hkey, List.append_assoc]
      refine (List.Perm.append_left _ List.perm_append_comm).trans ?_
      rw [← List.append_assoc]
      exact h.append_right _
    · rw [ofKey_concat_of_ne hkey, ofKey_concat_of_ne hkey]
      exact h
  · rw [seen_submit hbypass]
    split
    · next hkey =>
      rw [ofKey_concat_of_eq hkey]
      exact h.append_right _
    · next hkey =>
      rw [ofKey_concat_of_ne hkey]
      exact h

theorem Runs.submit (h : s.Runs getDomainAndRegistry scheme rows) (hhands : s.HandsOver getDomainAndRegistry rows) (hagrees : ∀ url, task.url = some url → Agrees getDomainAndRegistry scheme rows url) :
    (s.submit getDomainAndRegistry task).Runs getDomainAndRegistry scheme rows := by
  refine ⟨h.filed.submit true task, fun key => seen_perm_submit (h.seen key) task, fun {other} hmem {url} hurl => ?_,
    fun {other} hmem => ?_⟩
  · rw [CookieLoad.submit, CookieMonster.submitted_submit] at hmem
    rcases mem_append.1 hmem with hmem | hmem
    · exact h.agrees hmem hurl
    · rw [mem_singleton.1 hmem] at hurl
      exact hagrees url hurl
  · have hsubmit := submitted_submit getDomainAndRegistry s task
    generalize s.submit getDomainAndRegistry task = s' at hsubmit hmem
    cases hsubmit with
    | queued | queuedForKey => exact h.served hmem
    | ran hbypass =>
      rcases mem_append.1 hmem with hmem | hmem
      · exact h.served hmem
      · rw [mem_singleton.1 hmem]
        exact hhands.served hbypass hagrees

theorem Runs.notify (h : s.Runs getDomainAndRegistry scheme rows) (ioTasks : List IoTask) (task : IoTask) :
    (({ s with backend := { s.backend with ioTasks := ioTasks } } : CookieLoad Id Columns).notify task).Runs
      getDomainAndRegistry scheme rows := by
  have hsub : s.monster.storedCookies.Subperm (s.monster.storedCookies ++ s.backend.cookies) :=
    (List.sublist_append_left _ _).subperm
  cases task with
  | notifyLoaded =>
    refine ⟨h.filed.apply true (.onLoaded s.backend.cookies), fun key => ?_, h.agrees, fun hmem => List.Subperm.trans (h.served hmem) hsub⟩
    exact (List.Perm.of_eq (seen_onLoaded _)).trans (h.seen key)
  | notifyKeyLoaded key =>
    obtain ⟨hran, hstored⟩ : (s.monster.onKeyLoaded key s.backend.cookies).ran = s.monster.ran ∧
        (s.monster.onKeyLoaded key s.backend.cookies).storedCookies = s.monster.storedCookies ++ s.backend.cookies := by
      dsimp only [onKeyLoaded]
      split <;> exact ⟨rfl, rfl⟩
    have hsubmitted := submitted_onKeyLoaded s.monster key s.backend.cookies
    refine ⟨h.filed.onKeyLoaded key _, fun other => ?_, fun {task} hmem => ?_, fun {task} hmem => ?_⟩
    · refine (List.Perm.of_eq (seen_onKeyLoaded h.filed key _)).trans ((h.seen other).trans (.of_eq ?_))
      exact congrArg _ hsubmitted.symm
    · exact h.agrees (hsubmitted ▸ hmem)
    · dsimp only [CookieLoad.notify]
      rw [hstored]
      exact List.Subperm.trans (h.served (hran ▸ hmem)) hsub

theorem Runs.turn (h : s.Runs getDomainAndRegistry scheme rows) (hhands : s.HandsOver getDomainAndRegistry rows)
    (hloops : s.monster.loops ≠ []) :
    ({ s with monster := s.monster.turn } : CookieLoad Id Columns).Runs getDomainAndRegistry scheme rows := by
  have hsubmitted := submitted_turn s.monster
  refine ⟨h.filed.turn, fun key => ?_, fun {task} hmem => h.agrees (hsubmitted ▸ hmem), fun {task} hmem => ?_⟩
  · exact (List.Perm.of_eq (seen_turn h.filed)).trans ((h.seen key).trans (.of_eq (congrArg _ hsubmitted.symm)))
  · have hturn := turned_turn hloops
    generalize s.monster.turn = m at hturn hmem
    cases hturn with
    | ended | loaded => exact h.served hmem
    | @ran key next tasks loops heq =>
      rcases mem_append.1 hmem with hmem | hmem
      · exact h.served hmem
      · rw [mem_singleton.1 hmem]
        obtain ⟨-, hor, hkeys⟩ := h.filed.loops (heq ▸ mem_cons_self)
        have hkey := hkeys next mem_cons_self
        have hwaits : next ∈ s.monster.waiting (some key) := by
          rw [waiting, heq, List.flatMap_cons, Loop.tasksOf, if_pos rfl]
          exact mem_append_left _ (mem_append_left _ mem_cons_self)
        refine hhands.served ?_ fun url hurl => h.agrees (h.mem_submitted hwaits) hurl
        rw [hkey]
        exact hor.imp_right fun hkeyLoaded => ⟨key, rfl, hkeyLoaded⟩
    | ranQueued heq hqueue =>
      rcases mem_append.1 hmem with hmem | hmem
      · exact h.served hmem
      · exact hhands.servedAll (heq ▸ mem_cons_self) _

/-! ## Runs -/

structure Invariant (getDomainAndRegistry : List UInt8 → List UInt8) (scheme : ExpiryAndKeyScheme)
    (rows : List (CookieRow Columns)) (s : CookieLoad Id Columns) : Prop where
  handsOver : s.HandsOver getDomainAndRegistry rows
  posts : s.Posts
  runs : s.Runs getDomainAndRegistry scheme rows

theorem Invariant.isOpen (h : s.Invariant getDomainAndRegistry scheme rows) (hio : s.backend.ioTasks ≠ []) :
    s.backend.initialized = true := by
  by_contra hfalse
  exact hio (h.handsOver.fresh (Bool.eq_false_iff.2 hfalse)).ioTasks

theorem Invariant.next (h : s.Invariant getDomainAndRegistry scheme rows) {e : LoadEvent Id}
    (hsubmits : SubmitsIn (Agrees getDomainAndRegistry scheme rows) s e)
    (hnext : s.next getDomainAndRegistry rows e = some s') : s'.Invariant getDomainAndRegistry scheme rows := by
  cases e with
  | submit task =>
    cases hnext
    have hsubmit := submitted_submit getDomainAndRegistry s task
    exact ⟨h.handsOver.submit hsubmit, h.posts.submit hsubmit, h.runs.submit h.handsOver hsubmits⟩
  | dbThread =>
    rw [CookieLoad.next] at hnext
    split at hnext
    · cases hnext
    · next task dbTasks hdb =>
      cases hnext
      refine ⟨(h.handsOver.dbTasks dbTasks).runDbTask (h.posts.isFirst hdb), h.posts.dbThread hdb, ?_⟩
      exact ⟨h.runs.filed, h.runs.seen, h.runs.agrees, h.runs.served⟩
  | ioThread =>
    rw [CookieLoad.next] at hnext
    split at hnext
    · next task ioTasks hloops hio =>
      cases hnext
      have hopen := h.isOpen (hio ▸ List.cons_ne_nil _ _)
      exact ⟨h.handsOver.notify hio, h.posts.ioThread hio hopen, h.runs.notify _ _⟩
    · cases hnext
  | turn =>
    rw [CookieLoad.next] at hnext
    split at hnext
    · cases hnext
    · next hloops =>
      cases hnext
      exact ⟨h.handsOver.turn hloops, h.posts.turn hloops, h.runs.turn h.handsOver hloops⟩

theorem keysToLoad_congr {b' : Backend Columns} (hinit : b'.initialized = b.initialized)
    (hkeys : b'.keysToLoad = b.keysToLoad) :
    (b'.initializeDatabase getDomainAndRegistry rows).keysToLoad =
      (b.initializeDatabase getDomainAndRegistry rows).keysToLoad := by
  unfold initializeDatabase
  rw [hinit, hkeys]
  split
  · exact hkeys
  · rfl

theorem Invariant.work_lt (h : s.Invariant getDomainAndRegistry scheme rows) {e : LoadEvent Id}
    (he : ∀ task, e ≠ .submit task) (hnext : s.next getDomainAndRegistry rows e = some s') :
    s'.work getDomainAndRegistry rows < s.work getDomainAndRegistry rows := by
  have hsubmits : SubmitsIn (Agrees getDomainAndRegistry scheme rows) s e := by
    cases e with
    | submit task => exact absurd rfl (he task)
    | dbThread | ioThread | turn => trivial
  have hran := (h.next hsubmits hnext).runs.tasksOnce.length_le
  cases e with
  | submit task => exact absurd rfl (he task)
  | dbThread =>
    rw [CookieLoad.next] at hnext
    split at hnext
    · cases hnext
    · next task dbTasks hdb =>
      cases hnext
      have hdbRan := dbRan_runDbTask getDomainAndRegistry rows (b := { s.backend with dbTasks := dbTasks })
        (h.posts.isFirst hdb)
      obtain ⟨hframe, hframe'⟩ := initializeDatabase_frame getDomainAndRegistry rows { s.backend with dbTasks := dbTasks }
      have hkeys : (({ s.backend with dbTasks := dbTasks } : Backend Columns).initializeDatabase getDomainAndRegistry
          rows).keysToLoad = (s.backend.initializeDatabase getDomainAndRegistry rows).keysToLoad := keysToLoad_congr rfl rfl
      rw [work, work, hdb, length_cons]
      generalize ({ s.backend with dbTasks := dbTasks } : Backend Columns).runDbTask getDomainAndRegistry rows task = b
        at hdbRan
      have hlength := hdbRan.length
      have hopened : b.initializeDatabase getDomainAndRegistry rows = b := if_pos hdbRan.initialized
      rw [hframe, hframe', hkeys] at hlength
      dsimp only at hlength ⊢
      rw [hopened]
      omega
  | ioThread =>
    rw [CookieLoad.next] at hnext
    split at hnext
    · next task ioTasks hloops hio =>
      cases hnext
      rw [work, work, hloops, hio]
      have hkeys : (({ s.backend with ioTasks := ioTasks, cookies := [] } : Backend Columns).initializeDatabase
        getDomainAndRegistry rows).keysToLoad = (s.backend.initializeDatabase getDomainAndRegistry rows).keysToLoad :=
          keysToLoad_congr rfl rfl
      cases task with
      | notifyLoaded =>
        dsimp only [CookieLoad.notify, onLoaded]
        rw [hkeys, hloops]
        simp only [length_cons, List.length_nil]
        omega
      | notifyKeyLoaded key =>
        obtain ⟨hlength, hranEq⟩ : (s.monster.onKeyLoaded key s.backend.cookies).loops.length ≤ 1 ∧
            (s.monster.onKeyLoaded key s.backend.cookies).ran = s.monster.ran := by
          dsimp only [onKeyLoaded]
          split
          · rw [hloops]
            exact ⟨Nat.zero_le _, rfl⟩
          · rw [hloops]
            exact ⟨le_rfl, rfl⟩
        dsimp only [CookieLoad.notify]
        rw [hkeys, submitted_onKeyLoaded, hranEq]
        simp only [length_cons, List.length_nil]
        omega
    · cases hnext
  | turn =>
    rw [CookieLoad.next] at hnext
    split at hnext
    · cases hnext
    · next hloops =>
      cases hnext
      have hturn := turned_turn hloops
      dsimp only at hran
      rw [work, work]
      dsimp only
      generalize s.monster.turn = m at hturn hran
      cases hturn with
      | ended heq | loaded heq =>
        rw [heq, length_cons]
        dsimp only
        omega
      | ran heq =>
        dsimp only at hran ⊢
        rw [length_append, length_singleton] at hran ⊢
        rw [heq]
        simp only [length_cons]
        omega
      | ranQueued heq =>
        dsimp only at hran ⊢
        rw [length_append, length_singleton] at hran ⊢
        omega

theorem Invariant.rowsOnce (h : s.Invariant getDomainAndRegistry scheme rows) : s.monster.storedCookies.Subperm rows := by
  cases hopen : s.backend.initialized with
  | true => exact (List.sublist_append_left _ _).subperm.trans (h.handsOver.database hopen).subperm
  | false =>
    rw [(h.handsOver.fresh hopen).storedCookies]
    exact List.nil_subperm

theorem Invariant.waiting_eq_nil (h : s.Invariant getDomainAndRegistry scheme rows) (hquiescent : s.Quiescent)
    (key : Option (List UInt8)) : s.monster.waiting key = [] := by
  obtain ⟨hdb, hio, hloops⟩ := hquiescent
  cases key with
  | none =>
    refine h.runs.filed.emptied ?_
    cases hinit : s.monster.initialized with
    | false => exact .inr rfl
    | true =>
      have hor := h.posts.loads hinit
      rw [hdb, hio, hloops] at hor
      rcases hor with (hmem | hmem | hmem) | hmem | hloaded
      · cases hmem
      · cases hmem
      · cases hmem
      · cases hmem
      · exact .inl hloaded
  | some key =>
    rw [waiting, hloops, List.flatMap_nil, List.nil_append]
    by_cases hqueued : s.monster.tasksQueued key = none
    · rw [hqueued]
      rfl
    · have hor := h.posts.tasksQueued hqueued
      rw [hdb, hio] at hor
      rcases hor with hmem | hmem <;> cases hmem

theorem Invariant.delivers (h : s.Invariant getDomainAndRegistry scheme rows) : s.Delivers getDomainAndRegistry scheme rows where
  rowsOnce := h.rowsOnce
  tasksOnce := h.runs.tasksOnce
  served := h.runs.served
  goesOn hnot := by
    by_cases hdb : s.backend.dbTasks = []
    · by_cases hloops : s.monster.loops = []
      · obtain ⟨task, ioTasks, hio⟩ := List.exists_cons_of_ne_nil fun hio => hnot ⟨hdb, hio, hloops⟩
        refine ⟨.ioThread, ({ s with backend := { s.backend with ioTasks := ioTasks } } : CookieLoad Id Columns).notify task,
          (fun _ he => by cases he), ?_⟩
        rw [CookieLoad.next, hloops, hio]
      · exact ⟨.turn, _, (fun _ he => by cases he), if_neg hloops⟩
    · obtain ⟨task, dbTasks, heq⟩ := List.exists_cons_of_ne_nil hdb
      refine ⟨.dbThread,
        { s with backend := { s.backend with dbTasks := dbTasks }.runDbTask getDomainAndRegistry rows task },
        (fun _ he => by cases he), ?_⟩
      rw [CookieLoad.next, heq]
  ends he hnext := h.work_lt he hnext
  allRows hquiescent hsubmitted := by
    obtain ⟨hdb, hio, hloops⟩ := hquiescent
    have hinit : s.monster.initialized = true := by
      by_contra hfalse
      exact hsubmitted (h.posts.quiet (Bool.eq_false_iff.2 hfalse)).2.2
    have hor := h.posts.loads hinit
    rw [hdb, hio, hloops] at hor
    have hloaded : s.monster.loaded = true := by
      rcases hor with (hmem | hmem | hmem) | hmem | hloaded
      · cases hmem
      · cases hmem
      · cases hmem
      · cases hmem
      · exact hloaded
    have hopen : s.backend.initialized = true := by
      by_contra hfalse
      exact nomatch (h.handsOver.fresh (Bool.eq_false_iff.2 hfalse)).loaded.symm.trans hloaded
    exact (h.handsOver.database hopen).all (h.handsOver.allTaken (.inr (.inr hloaded)))
      (h.handsOver.allLoaded (.inr hloaded))
  allTasks hquiescent := by
    have hsub : s.monster.submitted.Subperm s.monster.ran := by
      refine subperm_of_ofKey (effectiveDomain getDomainAndRegistry) fun key => ?_
      have hseen := h.runs.seen key
      rw [seen, h.waiting_eq_nil hquiescent, List.append_nil] at hseen
      exact hseen.symm.subperm
    exact h.runs.tasksOnce.antisymm hsub

theorem invariant_of_run {tr : List (LoadEvent Id)}
    (h : ((loadSystem getDomainAndRegistry rows).restrict (SubmitsIn (Agrees getDomainAndRegistry scheme rows))).Run tr s) :
    s.Invariant getDomainAndRegistry scheme rows := by
  refine h.invariant ?_ ?_
  · rintro s rfl
    exact ⟨handsOver_new _ _, posts_new, runs_new⟩
  · rintro s e s' hinv ⟨hsubmits, hnext⟩
    exact hinv.next hsubmits hnext

/-! ## A task that runs early -/

theorem get?_loadFirst_ne_none (hcookies : b.cookies = [])
    (hkeys : b.keysToLoad = (distinctHostKeys rows).foldl (addDomain getDomainAndRegistry) [])
    (hrow : row ∈ rows) (hleast : ¬Least getDomainAndRegistry rows (getDomainAndRegistry row.hostKey)) :
    get? (getDomainAndRegistry row.hostKey) (b.loadFirst rows).keysToLoad ≠ none := by
  have hrows := rows_foldl_addDomain getDomainAndRegistry rows hcookies hkeys
  have hsome (other : CookieRow Columns) (hother : other ∈ rows) :
      get? (getDomainAndRegistry other.hostKey) b.keysToLoad ≠ none := by
    rw [hkeys]
    refine mt ((foldl_addDomain getDomainAndRegistry (List.nodup_dedup _)).2 _).2.1 (List.ne_nil_of_mem (a := other.hostKey) ?_)
    exact List.mem_filter.2 ⟨mem_distinctHostKeys.2 ⟨other, hother, rfl⟩, decide_eq_true rfl⟩
  have hsorted := hrows.sorted
  rw [(loadFirst_frame rows b).2.2]
  cases hcons : b.keysToLoad with
  | nil =>
    have hne := hsome row hrow
    rw [hcons] at hne
    exact absurd rfl hne
  | cons e keysToLoad =>
    rw [hcons] at hsorted
    obtain ⟨hlt, -⟩ := List.pairwise_cons.1 hsorted
    have hne := hsome row hrow
    rw [hcons, get?] at hne
    rw [List.tail_cons]
    split at hne
    · next heq =>
      refine absurd (fun other hother => ?_) hleast
      rw [← heq]
      by_contra hnot
      have hother' := hsome other hother
      rw [hcons, get?, if_neg (fun h => hnot h.le)] at hother'
      exact hother' (get?_eq_none_of_lt fun e' he' => (not_le.1 hnot).trans (hlt e' he'))
    · exact hne

theorem get?_loadKey_ne_none {key other : List UInt8} (hne : other ≠ key)
    (h : get? other b.keysToLoad ≠ none) : get? other (b.loadKey rows key).keysToLoad ≠ none := by
  unfold loadKey
  split
  · exact h
  · dsimp only
    rw [get?_erase, if_neg (Ne.symm hne)]
    exact h

/-- When the database has been opened, the chain goes on if a row is still to be loaded. -/
theorem exists_chained (dbTasks : List DbTask) (hrow : row ∈ rows)
    (hleast : ¬Least getDomainAndRegistry rows (getDomainAndRegistry row.hostKey)) :
    ∃ b : Backend Columns,
      ({ Backend.new with dbTasks := dbTasks } : Backend Columns).loadAndNotify getDomainAndRegistry rows = b ∧
      b.dbTasks = dbTasks ++ [.chainLoadCookies] ∧ b.initialized = true ∧ b.ioTasks = [] ∧
      b.Rows getDomainAndRegistry rows [] ∧ get? (getDomainAndRegistry row.hostKey) b.keysToLoad ≠ none := by
  let opened := ({ Backend.new with dbTasks := dbTasks } : Backend Columns).initializeDatabase getDomainAndRegistry rows
  have hopened : opened.initialized = true := initialized_initializeDatabase _ _ _
  have hrows : opened.Rows getDomainAndRegistry rows [] := rows_foldl_addDomain _ _ rfl rfl
  obtain ⟨hdb, hio, -⟩ := loadFirst_frame rows opened
  have hloads := loads_loadFirst hrows.sorted rows
  have hloaded := hrows.loads hloads
  have hget := get?_loadFirst_ne_none (b := opened) rfl rfl hrow hleast
  refine ⟨{ opened.loadFirst rows with dbTasks := dbTasks ++ [.chainLoadCookies] }, ?_, rfl, ?_, hio,
    ⟨hloaded.sorted, hloaded.domains, hloaded.handed⟩, hget⟩
  · have hpos : 0 < (opened.loadFirst rows).keysToLoad.length := by
      refine List.length_pos_iff.2 ?_
      intro hnil
      rw [hnil] at hget
      exact hget rfl
    change opened.chainLoadCookies rows = _
    dsimp only [chainLoadCookies]
    rw [if_pos hpos, hdb]
    rfl
  · exact (initialized_loadFirst _ _).trans hopened

/-- When another key has been loaded, a row that was still to be loaded is not in the buffer. -/
theorem exists_keyLoaded (hinit : b.initialized = true) (hio : b.ioTasks = [])
    (hrows : b.Rows getDomainAndRegistry rows []) {key : List UInt8}
    (hne : getDomainAndRegistry row.hostKey ≠ key) (hget : get? (getDomainAndRegistry row.hostKey) b.keysToLoad ≠ none) :
    ∃ b' : Backend Columns, b.loadKeyAndNotify getDomainAndRegistry rows key = b' ∧
      b'.ioTasks = [.notifyKeyLoaded key] ∧ row ∉ b'.cookies := by
  obtain ⟨hloads, -⟩ := loads_loadKey rows key b
  have hopen : b.initializeDatabase getDomainAndRegistry rows = b := if_pos hinit
  refine ⟨_, rfl, ?_, fun hmem => ?_⟩
  · rw [loadKeyAndNotify, hopen]
    dsimp only
    rw [hloads.ioTasks, hio]
    rfl
  · rw [loadKeyAndNotify, hopen] at hmem
    have hnone := (List.mem_filter.1 ((hrows.loads hloads).handed.mem_iff.1 hmem)).2
    exact get?_loadKey_ne_none hne hget (decide_eq_true_iff.1 hnone)

/-- **A task that waits for another key than the database has a row under runs before the row is handed over.** -/
theorem exists_run_early (id : Id) (hrow : row ∈ rows)
    (hne : getDomainAndRegistry row.hostKey ≠ effectiveDomain getDomainAndRegistry url)
    (hleast : ¬Least getDomainAndRegistry rows (getDomainAndRegistry row.hostKey)) (urls : Url → Prop) (hurl : urls url) :
    ∃ s : CookieLoad Id Columns, ((loadSystem getDomainAndRegistry rows).restrict (SubmitsIn urls)).Run
        [.submit ⟨some url, id⟩, .dbThread, .dbThread, .ioThread, .turn] s ∧
      ⟨some url, id⟩ ∈ s.monster.ran ∧ row ∉ s.monster.storedCookies := by
  let task : CookieMonsterTask Url Id := ⟨some url, id⟩
  obtain ⟨key, hkey⟩ : ∃ key, key = effectiveDomain getDomainAndRegistry url := ⟨_, rfl⟩
  rw [← hkey] at hne
  -- The load of everything is posted, and behind it that of the key.
  obtain ⟨monster, hloops, hqueued, hmonster⟩ : ∃ monster : CookieMonster Url Id (List UInt8) (CookieRow Columns),
      monster.loops = [] ∧ monster.tasksQueued key = some [task] ∧ monster.storedCookies = [] ∧
      CookieLoad.next getDomainAndRegistry rows ({ monster := .new, backend := .new } : CookieLoad Id Columns)
        (.submit task) =
        some { monster := monster, backend := { Backend.new with dbTasks := [.loadAndNotify, .loadKeyAndNotify key] } } := by
    refine ⟨CookieMonster.new.submit true (effectiveDomain getDomainAndRegistry) task, rfl, ?_, rfl, hkey ▸ rfl⟩
    rw [hkey]
    exact Function.update_self (effectiveDomain getDomainAndRegistry url) _ _
  obtain ⟨hstored, hsubmit⟩ := hmonster
  obtain ⟨first, hfirst, hdb, hinit, hio, hrows, hget⟩ := exists_chained [.loadKeyAndNotify key] hrow hleast
  obtain ⟨second, hsecond, hio', hnot⟩ := exists_keyLoaded (b := { first with dbTasks := [.chainLoadCookies] }) hinit hio
    ⟨hrows.sorted, hrows.domains, hrows.handed⟩ hne hget
  have hload : CookieLoad.next getDomainAndRegistry rows
      { monster := monster, backend := { Backend.new with dbTasks := [.loadAndNotify, .loadKeyAndNotify key] } } .dbThread =
      some { monster := monster, backend := first } := hfirst ▸ rfl
  have hloadKey : CookieLoad.next getDomainAndRegistry rows { monster := monster, backend := first } .dbThread =
      some { monster := monster, backend := second } := by
    rw [CookieLoad.next, hdb]
    exact congrArg (fun b => some ({ monster := monster, backend := b } : CookieLoad Id Columns)) hsecond
  -- The notification takes the task out, and it runs.
  have hkeyLoaded : monster.onKeyLoaded key second.cookies = { monster with
        storedCookies := second.cookies, keysLoaded := key :: monster.keysLoaded
        tasksQueued := Function.update monster.tasksQueued key none, loops := [.onKeyLoaded key [task]] } := by
    dsimp only [onKeyLoaded]
    rw [hqueued, hstored, hloops]
    rfl
  have hnotify : CookieLoad.next getDomainAndRegistry rows { monster := monster, backend := second } .ioThread =
      some { monster := monster.onKeyLoaded key second.cookies, backend := { second with ioTasks := [], cookies := [] } } := by
    rw [CookieLoad.next, hio']
    dsimp only
    rw [hloops]
    rfl
  have hturn : CookieLoad.next getDomainAndRegistry rows
      { monster := monster.onKeyLoaded key second.cookies, backend := { second with ioTasks := [], cookies := [] } } .turn =
      some { monster := (monster.onKeyLoaded key second.cookies).turn
             backend := { second with ioTasks := [], cookies := [] } } := by
    rw [CookieLoad.next, hkeyLoaded]
    rfl
  have hurls : ∀ other ∈ task.url, urls other := by
    rintro other hother
    cases hother
    exact hurl
  let S := (loadSystem getDomainAndRegistry rows : TransSys (CookieLoad Id Columns) (LoadEvent Id)).restrict (SubmitsIn urls)
  have hrun : S.Run [.submit task] _ := .step (.init rfl) ⟨hurls, hsubmit⟩
  have hrun : S.Run [.submit task, .dbThread] _ := .step hrun ⟨trivial, hload⟩
  have hrun : S.Run [.submit task, .dbThread, .dbThread] _ := .step hrun ⟨trivial, hloadKey⟩
  have hrun : S.Run [.submit task, .dbThread, .dbThread, .ioThread] _ := .step hrun ⟨trivial, hnotify⟩
  have hrun : S.Run [.submit task, .dbThread, .dbThread, .ioThread, .turn] _ := .step hrun ⟨trivial, hturn⟩
  refine ⟨_, hrun, ?_⟩
  dsimp only
  rw [hkeyLoaded]
  exact ⟨mem_append_right _ (mem_singleton.2 rfl), hnot⟩

/-- **Every run hands each row over once and runs each task once, when it finds the rows that it needs, exactly if the keys
agree for the URLs that are submitted.** -/
theorem loading_spec {Id Columns : Type} [Inhabited Id] (getDomainAndRegistry : List UInt8 → List UInt8)
    (scheme : ExpiryAndKeyScheme) (rows : List (CookieRow Columns)) (urls : Url → Prop) :
    (∀ (tr : List (LoadEvent Id)) (s : CookieLoad Id Columns),
        ((loadSystem getDomainAndRegistry rows).restrict (SubmitsIn urls)).Run tr s →
          s.Delivers getDomainAndRegistry scheme rows) ↔
      ∀ url, urls url → Agrees getDomainAndRegistry scheme rows url := by
  refine ⟨fun h url hurl row hrow hkey => ?_, fun h tr s hrun => ?_⟩
  · by_contra hnot
    obtain ⟨hne, hleast⟩ := not_or.mp hnot
    obtain ⟨s, hrun, hran, hstored⟩ := exists_run_early (default : Id) hrow hne hleast urls hurl
    have hserved := (h _ s hrun).served hran
    exact hstored (hserved.subset (List.mem_filter.mpr ⟨hrow, decide_eq_true hkey⟩))
  · have hagrees : ((loadSystem getDomainAndRegistry rows).restrict
        (SubmitsIn (Agrees getDomainAndRegistry scheme rows))).Run tr s := by
      induction hrun with
      | init h => exact .init h
      | @step _ s s' e hrun hstep ih =>
        refine ih.step ⟨?_, hstep.2⟩
        have hsubmits := hstep.1
        cases e with
        | submit task => exact fun url hurl => h url (hsubmits url hurl)
        | dbThread | ioThread | turn => trivial
    exact (invariant_of_run hagrees).delivers

/-! ## URLs whose keys agree -/

end CookieLoad

/-! ## A file URL -/

/-- `"a.com"`. -/
def aCom : List UInt8 := [97, 46, 99, 111, 109]

/-- `"www.b.com"`. -/
def wwwBCom : List UInt8 := [119, 119, 119, 46, 98, 46, 99, 111, 109]

def file : List UInt8 := [102, 105, 108, 101]

/-- `GetDomainAndRegistry` of canonical host names, with no rules. -/
def someDomainAndRegistry (host : List UInt8) : List UInt8 :=
  (getDomainAndRegistryImpl (fun _ _ => none) host).getD []

/-- **A task for a file URL runs before a cookie of its host is handed over.** -/
theorem servedEarly_file : ∃ s : CookieLoad ℕ Unit,
      (loadSystem someDomainAndRegistry [⟨aCom, ()⟩, ⟨wwwBCom, ()⟩]).Run
        [.submit ⟨some ⟨file, wwwBCom⟩, 0⟩, .dbThread, .dbThread, .ioThread, .turn] s ∧
      ¬s.Delivers someDomainAndRegistry .keepRecentAndPurgeEtldp1 [⟨aCom, ()⟩, ⟨wwwBCom, ()⟩] := by
  have hmem : (⟨wwwBCom, ()⟩ : CookieRow Unit) ∈ [⟨aCom, ()⟩, ⟨wwwBCom, ()⟩] := by decide
  have hne : someDomainAndRegistry wwwBCom ≠ CookieLoad.effectiveDomain someDomainAndRegistry ⟨file, wwwBCom⟩ := by decide
  have hleast : ¬CookieLoad.Least someDomainAndRegistry [(⟨aCom, ()⟩ : CookieRow Unit), ⟨wwwBCom, ()⟩]
      (someDomainAndRegistry wwwBCom) := by
    intro h
    exact absurd (h ⟨aCom, ()⟩ (by decide)) (by decide)
  obtain ⟨s, hrun, hran, hstored⟩ := CookieLoad.exists_run_early (0 : ℕ) hmem hne hleast (fun _ => True) trivial
  refine ⟨s, hrun.of_restrict, fun h => hstored ((h.served hran).subset ?_)⟩
  exact List.mem_filter.mpr ⟨hmem, rfl⟩

end Chromium.Net.Cookies
