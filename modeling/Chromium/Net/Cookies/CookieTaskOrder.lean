import Chromium.Net.Cookies.CookieTasks
import Mathlib.Data.List.Basic

/-!
# The order in which tasks run

The tasks of a domain key that have run and those that wait, in this order, are the tasks that were submitted, except that a
task that is not kept back runs before those that wait.  `InvokeQueue` sets `loaded_` when its queue is empty, so a task of
no key never overtakes.  `OnKeyLoaded` sets `keys_loaded_` before it runs the queue it has taken out, and `loaded_` is set
while queues of keys are still there, so a task of a key may.
-/

namespace Chromium.Net.Cookies

open Lib
open Function (update_of_ne update_self)
open List (append_assoc append_nil flatMap_cons mem_cons mem_cons_of_mem mem_cons_self)

variable {URL Id Key Cookie : Type} [DecidableEq Key]

section Keys

variable (effectiveDomain : URL → Key)

def CookieMonsterTask.key (task : CookieMonsterTask URL Id) : Option Key := task.url.map effectiveDomain

def ofKey (key : Option Key) (tasks : List (CookieMonsterTask URL Id)) : List (CookieMonsterTask URL Id) :=
  tasks.filter fun task => task.key effectiveDomain = key

variable {effectiveDomain} {key : Option Key} {task : CookieMonsterTask URL Id} {tasks : List (CookieMonsterTask URL Id)}

theorem ofKey_concat_of_eq (h : task.key effectiveDomain = key) :
    ofKey effectiveDomain key (tasks ++ [task]) = ofKey effectiveDomain key tasks ++ [task] := by
  rw [ofKey, List.filter_append, List.filter_singleton, h, decide_eq_true rfl]
  rfl

theorem ofKey_concat_of_ne (h : task.key effectiveDomain ≠ key) :
    ofKey effectiveDomain key (tasks ++ [task]) = ofKey effectiveDomain key tasks := by
  rw [ofKey, List.filter_append, List.filter_singleton, decide_eq_false h]
  exact append_nil _

end Keys

def Loop.tasksOf (key : Key) : Loop URL Id Key → List (CookieMonsterTask URL Id)
  | .onKeyLoaded key' tasks => if key' = key then tasks else []
  | .invokeQueue => []

namespace CookieMonster

def waiting (m : CookieMonster URL Id Key Cookie) : Option Key → List (CookieMonsterTask URL Id)
  | none => m.queue
  | some key => m.loops.flatMap (Loop.tasksOf key) ++ (m.tasksQueued key).getD []

def Bypasses (m : CookieMonster URL Id Key Cookie) (key : Option Key) : Prop :=
  m.loaded = true ∨ ∃ domain, key = some domain ∧ domain ∈ m.keysLoaded

variable {hasStore : Bool} {effectiveDomain : URL → Key} {m : CookieMonster URL Id Key Cookie} {key : Option Key}
  {task : CookieMonsterTask URL Id} {e : TaskEvent URL Id Key Cookie}

/-! ## A task that is submitted -/

omit [DecidableEq Key] in
theorem initIfNecessary_submitted (tasks : List (CookieMonsterTask URL Id)) :
    ({ m with submitted := tasks } : CookieMonster URL Id Key Cookie).initIfNecessary hasStore =
      { m.initIfNecessary hasStore with submitted := tasks } := by
  dsimp only [initIfNecessary]
  split
  · rfl
  · split <;> rfl

/-- What `InitIfNecessary` leaves as it is. -/
structure Initialized (m m' : CookieMonster URL Id Key Cookie) : Prop where
  initialized : m'.initialized = true
  loaded (h : m'.loaded = true) : m.loaded = true ∨ m.initialized = false
  ofLoaded (h : m.loaded = true) : m'.loaded = true
  keysLoaded : m'.keysLoaded = m.keysLoaded
  tasksQueued : m'.tasksQueued = m.tasksQueued
  queue : m'.queue = m.queue
  storedCookies : m'.storedCookies = m.storedCookies
  loops : m'.loops = m.loops
  submitted : m'.submitted = m.submitted
  ran : m'.ran = m.ran

omit [DecidableEq Key] in
theorem initialized_initIfNecessary (hasStore : Bool) (m : CookieMonster URL Id Key Cookie) :
    m.Initialized (m.initIfNecessary hasStore) := by
  unfold initIfNecessary
  split
  · next h => exact ⟨h, .inl, id, rfl, rfl, rfl, rfl, rfl, rfl, rfl⟩
  · next h =>
    have hfalse : m.initialized = false := Bool.eq_false_iff.2 h
    split
    · exact ⟨rfl, .inl, id, rfl, rfl, rfl, rfl, rfl, rfl, rfl⟩
    · exact ⟨rfl, fun _ => .inr hfalse, fun _ => rfl, rfl, rfl, rfl, rfl, rfl, rfl, rfl⟩

theorem submit_of_bypasses (h : (m.initIfNecessary hasStore).Bypasses (task.key effectiveDomain)) :
    m.submit hasStore effectiveDomain task =
      { m.initIfNecessary hasStore with submitted := m.submitted ++ [task], ran := m.ran ++ [task] } := by
  have hran := (initialized_initIfNecessary hasStore m).ran
  obtain ⟨url, id⟩ := task
  cases url with
  | none =>
    have hloaded : (m.initIfNecessary hasStore).loaded = true := by
      rcases h with hloaded | ⟨_, hnone, _⟩
      · exact hloaded
      · cases hnone
    rw [submit]
    dsimp only
    rw [doCookieTask, initIfNecessary_submitted]
    dsimp only
    rw [if_pos hloaded, run, hran]
  | some url =>
    have hloaded : (m.initIfNecessary hasStore).loaded = true ∨
        effectiveDomain url ∈ (m.initIfNecessary hasStore).keysLoaded := by
      refine h.imp_right ?_
      rintro ⟨_, heq, hmem⟩
      cases heq
      exact hmem
    rw [submit]
    dsimp only
    rw [doCookieTaskForURL, initIfNecessary_submitted]
    dsimp only
    rw [if_pos hloaded, run, hran]

theorem submit_of_none (hkey : task.key effectiveDomain = none) (h : ¬(m.initIfNecessary hasStore).Bypasses none) :
    m.submit hasStore effectiveDomain task =
      { m.initIfNecessary hasStore with submitted := m.submitted ++ [task], queue := m.queue ++ [task] } := by
  obtain ⟨url, id⟩ := task
  cases url with
  | some url => cases hkey
  | none =>
    rw [submit]
    dsimp only
    rw [doCookieTask, initIfNecessary_submitted]
    dsimp only
    rw [if_neg fun hloaded => h (.inl hloaded), (initialized_initIfNecessary hasStore m).queue]

theorem submit_of_some {domain : Key} (hkey : task.key effectiveDomain = some domain)
    (h : ¬(m.initIfNecessary hasStore).Bypasses (some domain)) :
    ∃ calls, m.submit hasStore effectiveDomain task = { m.initIfNecessary hasStore with
        submitted := m.submitted ++ [task]
        storeCalls := (m.initIfNecessary hasStore).storeCalls ++ calls
        tasksQueued := Function.update m.tasksQueued domain (some ((m.tasksQueued domain).getD [] ++ [task])) } ∧
      calls = if m.tasksQueued domain = none then [.loadCookiesForKey domain] else [] := by
  obtain ⟨url, id⟩ := task
  cases url with
  | none => cases hkey
  | some url =>
    have hdomain : effectiveDomain url = domain := Option.some.inj hkey
    have hnot : ¬((m.initIfNecessary hasStore).loaded = true ∨ effectiveDomain url ∈ (m.initIfNecessary hasStore).keysLoaded) :=
      fun hor => h (hor.imp_right fun hmem => ⟨domain, rfl, hdomain ▸ hmem⟩)
    refine ⟨_, ?_, rfl⟩
    rw [submit]
    dsimp only
    rw [doCookieTaskForURL, initIfNecessary_submitted]
    dsimp only
    rw [if_neg hnot, hdomain, (initialized_initIfNecessary hasStore m).tasksQueued]
    cases m.tasksQueued domain with
    | none => rfl
    | some tasks => rw [if_neg (Option.some_ne_none _), append_nil, Option.getD_some]

/-! ## Where tasks are kept -/

/-- A task waits where its key says, and none of no key waits once all is loaded. -/
structure Filed (effectiveDomain : URL → Key) (m : CookieMonster URL Id Key Cookie) : Prop where
  loops {domain : Key} {tasks : List (CookieMonsterTask URL Id)} (h : .onKeyLoaded domain tasks ∈ m.loops) :
    m.tasksQueued domain = none ∧ (m.loaded = true ∨ domain ∈ m.keysLoaded) ∧
      ∀ task ∈ tasks, task.key effectiveDomain = some domain
  tasksQueued {domain : Key} {tasks : List (CookieMonsterTask URL Id)} (h : m.tasksQueued domain = some tasks) :
    ∀ task ∈ tasks, task.key effectiveDomain = some domain
  queue {task : CookieMonsterTask URL Id} (h : task ∈ m.queue) : task.key effectiveDomain = none
  emptied (h : m.loaded = true ∨ m.initialized = false) : m.queue = []

omit [DecidableEq Key] in
theorem filed_new : (new : CookieMonster URL Id Key Cookie).Filed effectiveDomain where
  loops h := by cases h
  tasksQueued h := by cases h
  queue h := by cases h
  emptied _ := rfl

omit [DecidableEq Key] in
theorem Filed.initIfNecessary (h : m.Filed effectiveDomain) (hasStore : Bool) :
    (m.initIfNecessary hasStore).Filed effectiveDomain := by
  have hinit := initialized_initIfNecessary hasStore m
  refine ⟨fun {domain tasks} hmem => ?_, fun {domain tasks} hqueued => ?_, fun {task} hmem => ?_, fun hloaded => ?_⟩
  · rw [hinit.loops] at hmem
    rw [hinit.tasksQueued, hinit.keysLoaded]
    exact ⟨(h.loops hmem).1, (h.loops hmem).2.1.imp_left hinit.ofLoaded, (h.loops hmem).2.2⟩
  · rw [hinit.tasksQueued] at hqueued
    exact h.tasksQueued hqueued
  · rw [hinit.queue] at hmem
    exact h.queue hmem
  · rw [hinit.queue]
    rcases hloaded with hloaded | hfalse
    · exact h.emptied (hinit.loaded hloaded)
    · rw [hinit.initialized] at hfalse
      cases hfalse

theorem Filed.submit (h : m.Filed effectiveDomain) (hasStore : Bool) (task : CookieMonsterTask URL Id) :
    (m.submit hasStore effectiveDomain task).Filed effectiveDomain := by
  have hinit := initialized_initIfNecessary hasStore m
  have hfiled := h.initIfNecessary hasStore
  by_cases hbypass : (m.initIfNecessary hasStore).Bypasses (task.key effectiveDomain)
  · rw [submit_of_bypasses hbypass]
    exact ⟨hfiled.loops, hfiled.tasksQueued, hfiled.queue, hfiled.emptied⟩
  cases hkey : task.key effectiveDomain with
  | none =>
    rw [hkey] at hbypass
    rw [submit_of_none hkey hbypass]
    refine ⟨hfiled.loops, hfiled.tasksQueued, fun {other} hmem => ?_, fun hloaded => ?_⟩
    · rcases List.mem_append.1 hmem with hmem | hmem
      · exact h.queue hmem
      · rw [List.mem_singleton.1 hmem, hkey]
    · rcases hloaded with hloaded | hfalse
      · exact absurd (.inl hloaded) hbypass
      · rw [hinit.initialized] at hfalse
        cases hfalse
  | some domain =>
    rw [hkey] at hbypass
    obtain ⟨calls, heq, -⟩ := submit_of_some hkey hbypass
    rw [heq]
    refine ⟨fun {other tasks} hmem => ?_, fun {other tasks} hqueued => ?_, hfiled.queue, hfiled.emptied⟩
    · have hne : other ≠ domain := by
        rintro rfl
        exact hbypass ((hfiled.loops hmem).2.1.imp_right fun hloaded => ⟨other, rfl, hloaded⟩)
      refine ⟨?_, (hfiled.loops hmem).2⟩
      exact (update_of_ne hne _ _).trans (hinit.tasksQueued ▸ (hfiled.loops hmem).1)
    · dsimp only at hqueued
      by_cases hne : other = domain
      · rw [hne, update_self] at hqueued
        cases hqueued
        intro queued hmem
        rw [hne]
        rcases List.mem_append.1 hmem with hmem | hmem
        · cases hold : m.tasksQueued domain with
          | none => rw [hold] at hmem; cases hmem
          | some tasks => rw [hold] at hmem; exact h.tasksQueued hold queued hmem
        · rw [List.mem_singleton.1 hmem, hkey]
      · rw [update_of_ne hne] at hqueued
        exact h.tasksQueued hqueued

theorem Filed.onKeyLoaded (h : m.Filed effectiveDomain) (domain : Key) (cookies : List Cookie) :
    (m.onKeyLoaded domain cookies).Filed effectiveDomain := by
  have hloops {other : Key} {tasks : List (CookieMonsterTask URL Id)} (hmem : .onKeyLoaded other tasks ∈ m.loops) :
      m.loaded = true ∨ other ∈ domain :: m.keysLoaded := (h.loops hmem).2.1.imp_right (mem_cons_of_mem _)
  dsimp only [CookieMonster.onKeyLoaded]
  cases hqueued : m.tasksQueued domain with
  | none => exact ⟨fun hmem => ⟨(h.loops hmem).1, hloops hmem, (h.loops hmem).2.2⟩, h.tasksQueued, h.queue, h.emptied⟩
  | some tasks =>
    refine ⟨fun {other tasks'} hmem => ?_, fun {other tasks'} hother => ?_, h.queue, h.emptied⟩
    · rcases mem_cons.1 hmem with heq | hmem
      · injection heq with heq htasks
        rw [heq, htasks]
        exact ⟨update_self .., .inr mem_cons_self, h.tasksQueued hqueued⟩
      · refine ⟨?_, hloops hmem, (h.loops hmem).2.2⟩
        dsimp only
        by_cases heq : other = domain
        · rw [heq, update_self]
        · rw [update_of_ne heq, (h.loops hmem).1]
    · dsimp only at hother
      by_cases heq : other = domain
      · rw [heq, update_self] at hother
        cases hother
      · rw [update_of_ne heq] at hother
        exact h.tasksQueued hother

omit [DecidableEq Key] in
theorem Filed.turn (h : m.Filed effectiveDomain) : m.turn.Filed effectiveDomain := by
  unfold CookieMonster.turn
  split
  · exact h
  · next domain loops heq =>
    exact ⟨fun hmem => h.loops (heq ▸ mem_cons_of_mem _ hmem), h.tasksQueued, h.queue, h.emptied⟩
  · next domain task tasks loops heq =>
    have hmem : Loop.onKeyLoaded domain (task :: tasks) ∈ m.loops := heq ▸ mem_cons_self
    have hhead := h.loops hmem
    refine ⟨fun {other tasks'} hmem => ?_, h.tasksQueued, h.queue, h.emptied⟩
    rcases mem_cons.1 hmem with hloop | hmem
    · injection hloop with hother htasks
      rw [hother, htasks]
      exact ⟨hhead.1, hhead.2.1, fun t ht => hhead.2.2 t (mem_cons_of_mem _ ht)⟩
    · exact h.loops (heq ▸ mem_cons_of_mem _ hmem)
  · next loops heq =>
    split
    · next hnil =>
      refine ⟨fun hmem => ?_, h.tasksQueued, h.queue, fun _ => hnil⟩
      have hold := h.loops (heq ▸ mem_cons_of_mem _ hmem)
      exact ⟨hold.1, .inl rfl, hold.2.2⟩
    · next task queue hcons =>
      refine ⟨h.loops, h.tasksQueued, fun hmem => h.queue (hcons ▸ mem_cons_of_mem _ hmem), fun hloaded => ?_⟩
      rw [h.emptied hloaded] at hcons
      cases hcons

theorem Filed.apply (h : m.Filed effectiveDomain) (hasStore : Bool) (e : TaskEvent URL Id Key Cookie) :
    (m.apply hasStore effectiveDomain e).Filed effectiveDomain := by
  cases e with
  | submit task => exact h.submit hasStore task
  | onLoaded cookies =>
    refine ⟨fun {domain tasks} hmem => ?_, h.tasksQueued, h.queue, h.emptied⟩
    rcases mem_cons.1 hmem with heq | hmem
    · cases heq
    · exact h.loops hmem
  | onKeyLoaded domain cookies => exact h.onKeyLoaded domain cookies
  | turn => exact h.turn

/-! ## What has run and what waits -/

def seen (effectiveDomain : URL → Key) (m : CookieMonster URL Id Key Cookie) (key : Option Key) :
    List (CookieMonsterTask URL Id) := ofKey effectiveDomain key m.ran ++ m.waiting key

theorem waiting_congr {m' : CookieMonster URL Id Key Cookie} (hqueue : m'.queue = m.queue) (hloops : m'.loops = m.loops)
    (htasks : m'.tasksQueued = m.tasksQueued) : m'.waiting key = m.waiting key := by
  cases key with
  | none => exact hqueue
  | some domain => rw [waiting, waiting, hloops, htasks]

theorem waiting_initIfNecessary : (m.initIfNecessary hasStore).waiting key = m.waiting key := by
  have hinit := initialized_initIfNecessary hasStore m
  exact waiting_congr hinit.queue hinit.loops hinit.tasksQueued

theorem seen_submit_of_bypasses (h : (m.initIfNecessary hasStore).Bypasses (task.key effectiveDomain)) :
    (m.submit hasStore effectiveDomain task).seen effectiveDomain key =
      ofKey effectiveDomain key (m.ran ++ [task]) ++ m.waiting key := by
  rw [submit_of_bypasses h, seen]
  dsimp only
  refine congrArg (ofKey effectiveDomain key (m.ran ++ [task]) ++ ·) ?_
  exact (waiting_congr rfl rfl rfl).trans waiting_initIfNecessary

theorem waiting_submit (hbypass : ¬(m.initIfNecessary hasStore).Bypasses (task.key effectiveDomain)) :
    (m.submit hasStore effectiveDomain task).waiting key =
      if task.key effectiveDomain = key then m.waiting key ++ [task] else m.waiting key := by
  have hinit := initialized_initIfNecessary hasStore m
  cases hkey : task.key effectiveDomain with
  | none =>
    rw [hkey] at hbypass
    rw [submit_of_none hkey hbypass]
    cases key with
    | none => rw [if_pos rfl]; rfl
    | some domain =>
      rw [if_neg (Option.some_ne_none _).symm, waiting, waiting]
      dsimp only
      rw [hinit.loops, hinit.tasksQueued]
  | some domain =>
    rw [hkey] at hbypass
    obtain ⟨calls, heq, -⟩ := submit_of_some hkey hbypass
    rw [heq]
    cases key with
    | none => rw [if_neg (Option.some_ne_none _)]; exact hinit.queue
    | some other =>
      rw [waiting, waiting]
      dsimp only
      rw [hinit.loops]
      by_cases hother : domain = other
      · rw [if_pos (congrArg some hother), hother, update_self, Option.getD_some, append_assoc]
      · rw [if_neg fun hsome => hother (Option.some.inj hsome), update_of_ne (Ne.symm hother)]

theorem ran_submit (hbypass : ¬(m.initIfNecessary hasStore).Bypasses (task.key effectiveDomain)) :
    (m.submit hasStore effectiveDomain task).ran = m.ran := by
  have hinit := initialized_initIfNecessary hasStore m
  cases hkey : task.key effectiveDomain with
  | none =>
    rw [hkey] at hbypass
    rw [submit_of_none hkey hbypass]
    exact hinit.ran
  | some domain =>
    rw [hkey] at hbypass
    obtain ⟨calls, heq, -⟩ := submit_of_some hkey hbypass
    rw [heq]
    exact hinit.ran

theorem seen_submit (hbypass : ¬(m.initIfNecessary hasStore).Bypasses (task.key effectiveDomain)) :
    (m.submit hasStore effectiveDomain task).seen effectiveDomain key =
      if task.key effectiveDomain = key then m.seen effectiveDomain key ++ [task] else m.seen effectiveDomain key := by
  rw [seen, ran_submit hbypass, waiting_submit hbypass]
  split
  · rw [seen, append_assoc]
  · rfl

theorem submitted_submit : (m.submit hasStore effectiveDomain task).submitted = m.submitted ++ [task] := by
  by_cases hbypass : (m.initIfNecessary hasStore).Bypasses (task.key effectiveDomain)
  · rw [submit_of_bypasses hbypass]
  cases hkey : task.key effectiveDomain with
  | none => rw [submit_of_none hkey (hkey ▸ hbypass)]
  | some domain =>
    obtain ⟨calls, heq, -⟩ := submit_of_some hkey (hkey ▸ hbypass)
    rw [heq]

theorem seen_onLoaded (cookies : List Cookie) : (m.onLoaded cookies).seen effectiveDomain key = m.seen effectiveDomain key := by
  cases key <;> rfl

theorem Filed.tasksOf_eq_nil (h : m.Filed effectiveDomain) {domain : Key} {tasks : List (CookieMonsterTask URL Id)}
    (hqueued : m.tasksQueued domain = some tasks) : m.loops.flatMap (Loop.tasksOf domain) = [] := by
  rw [List.flatMap_eq_nil_iff]
  intro loop hmem
  cases loop with
  | invokeQueue => rfl
  | onKeyLoaded other tasks' =>
    refine if_neg ?_
    rintro rfl
    rw [(h.loops hmem).1] at hqueued
    cases hqueued

theorem seen_onKeyLoaded (h : m.Filed effectiveDomain) (domain : Key) (cookies : List Cookie) :
    (m.onKeyLoaded domain cookies).seen effectiveDomain key = m.seen effectiveDomain key := by
  dsimp only [onKeyLoaded]
  cases hqueued : m.tasksQueued domain with
  | none => exact congrArg (ofKey effectiveDomain key m.ran ++ ·) (waiting_congr rfl rfl rfl)
  | some tasks =>
    refine congrArg (ofKey effectiveDomain key m.ran ++ ·) ?_
    cases key with
    | none => rfl
    | some other =>
      rw [waiting, waiting]
      dsimp only
      rw [flatMap_cons, Loop.tasksOf]
      by_cases heq : domain = other
      · rw [← heq, if_pos rfl, h.tasksOf_eq_nil hqueued, hqueued, update_self]
        exact append_nil _ |>.trans (append_nil _)
      · rw [if_neg heq, update_of_ne (Ne.symm heq)]
        rfl

theorem seen_turn (h : m.Filed effectiveDomain) : m.turn.seen effectiveDomain key = m.seen effectiveDomain key := by
  unfold turn
  split
  · rfl
  · next domain loops heq =>
    refine congrArg (ofKey effectiveDomain key m.ran ++ ·) ?_
    cases key with
    | none => rfl
    | some other =>
      rw [waiting, waiting, heq, flatMap_cons, Loop.tasksOf, ite_self]
      rfl
  · next domain task tasks loops heq =>
    have hmem : Loop.onKeyLoaded domain (task :: tasks) ∈ m.loops := heq ▸ mem_cons_self
    have htask : task.key effectiveDomain = some domain := (h.loops hmem).2.2 task mem_cons_self
    change ofKey effectiveDomain key (m.ran ++ [task]) ++ _ = ofKey effectiveDomain key m.ran ++ _
    cases key with
    | none =>
      rw [ofKey_concat_of_ne (htask ▸ Option.some_ne_none _)]
      rfl
    | some other =>
      rw [waiting, waiting, heq, flatMap_cons, Loop.tasksOf, run]
      dsimp only
      rw [flatMap_cons, Loop.tasksOf]
      by_cases hother : domain = other
      · rw [if_pos hother, if_pos hother, ofKey_concat_of_eq (htask.trans (congrArg some hother)), append_assoc]
        rfl
      · rw [if_neg hother, if_neg hother, ofKey_concat_of_ne (htask ▸ fun hsome => hother (Option.some.inj hsome))]
  · next loops heq =>
    split
    · refine congrArg (ofKey effectiveDomain key m.ran ++ ·) ?_
      cases key with
      | none => rfl
      | some other =>
        rw [waiting, waiting, heq]
        rfl
    · next task queue hcons =>
      have htask : task.key effectiveDomain = none := h.queue (hcons ▸ mem_cons_self)
      change ofKey effectiveDomain key (m.ran ++ [task]) ++ _ = ofKey effectiveDomain key m.ran ++ _
      cases key with
      | none =>
        rw [ofKey_concat_of_eq htask, waiting, waiting, hcons, append_assoc]
        rfl
      | some other =>
        rw [ofKey_concat_of_ne (htask ▸ (Option.some_ne_none _).symm)]
        rfl

omit [DecidableEq Key] in
theorem submitted_turn (m : CookieMonster URL Id Key Cookie) : m.turn.submitted = m.submitted := by
  unfold turn
  split
  · rfl
  · rfl
  · rfl
  · split <;> rfl

theorem submitted_onKeyLoaded (m : CookieMonster URL Id Key Cookie) (domain : Key) (cookies : List Cookie) :
    (m.onKeyLoaded domain cookies).submitted = m.submitted := by
  dsimp only [onKeyLoaded]
  split <;> rfl

/-! ## Runs -/

def InOrder (effectiveDomain : URL → Key) (m : CookieMonster URL Id Key Cookie) (key : Option Key) : Prop :=
  ofKey effectiveDomain key m.ran <+: ofKey effectiveDomain key m.submitted

def KeepsBack (hasStore : Bool) (effectiveDomain : URL → Key) (key : Option Key) (m : CookieMonster URL Id Key Cookie) :
    TaskEvent URL Id Key Cookie → Prop
  | .submit task => task.key effectiveDomain = key → (m.initIfNecessary hasStore).Bypasses key → m.waiting key = []
  | _ => True

theorem seen_apply (h : m.Filed effectiveDomain) (hseen : m.seen effectiveDomain key = ofKey effectiveDomain key m.submitted)
    (hkeeps : m.KeepsBack hasStore effectiveDomain key e) :
    (m.apply hasStore effectiveDomain e).seen effectiveDomain key =
      ofKey effectiveDomain key (m.apply hasStore effectiveDomain e).submitted := by
  cases e with
  | onLoaded cookies => exact (seen_onLoaded cookies).trans hseen
  | onKeyLoaded domain cookies =>
    refine (seen_onKeyLoaded h domain cookies).trans (hseen.trans ?_)
    exact congrArg _ (submitted_onKeyLoaded m domain cookies).symm
  | turn => exact (seen_turn h).trans (hseen.trans (congrArg _ (submitted_turn m).symm))
  | submit task =>
    change (m.submit hasStore effectiveDomain task).seen _ _ = ofKey _ _ (m.submit hasStore effectiveDomain task).submitted
    rw [submitted_submit]
    by_cases hkey : task.key effectiveDomain = key
    · rw [ofKey_concat_of_eq hkey, ← hseen]
      by_cases hbypass : (m.initIfNecessary hasStore).Bypasses (task.key effectiveDomain)
      · have hnil : m.waiting key = [] := hkeeps hkey (hkey ▸ hbypass)
        rw [seen_submit_of_bypasses hbypass, ofKey_concat_of_eq hkey, seen, hnil, append_nil, append_nil]
      · rw [seen_submit hbypass, if_pos hkey]
    · rw [ofKey_concat_of_ne hkey, ← hseen]
      by_cases hbypass : (m.initIfNecessary hasStore).Bypasses (task.key effectiveDomain)
      · rw [seen_submit_of_bypasses hbypass, ofKey_concat_of_ne hkey, seen]
      · rw [seen_submit hbypass, if_neg hkey]

end CookieMonster

open CookieMonster

variable {hasStore : Bool} {effectiveDomain : URL → Key} {key : Option Key} {tr : List (TaskEvent URL Id Key Cookie)}
  {m : CookieMonster URL Id Key Cookie}

theorem seen_of_run (h : ((taskSystem hasStore effectiveDomain).restrict (KeepsBack hasStore effectiveDomain key)).Run tr m) :
    m.seen effectiveDomain key = ofKey effectiveDomain key m.submitted := by
  refine (h.invariant (I := fun m => m.Filed effectiveDomain ∧
    m.seen effectiveDomain key = ofKey effectiveDomain key m.submitted) ?_ ?_).2
  · rintro m rfl
    refine ⟨filed_new, ?_⟩
    cases key <;> rfl
  · rintro m e m' ⟨hfiled, hseen⟩ ⟨hkeeps, rfl⟩
    exact ⟨hfiled.apply hasStore e, seen_apply hfiled hseen hkeeps⟩

/-- **In a run in which no task of the key is run at once while others of the key wait, the tasks of the key run in the order
in which they were submitted.** -/
theorem inOrder_of_run (hasStore : Bool) (effectiveDomain : URL → Key) (key : Option Key)
    (tr : List (TaskEvent URL Id Key Cookie)) (m : CookieMonster URL Id Key Cookie)
    (h : ((taskSystem hasStore effectiveDomain).restrict (KeepsBack hasStore effectiveDomain key)).Run tr m) :
    m.InOrder effectiveDomain key := by
  rw [InOrder, ← seen_of_run h]
  exact List.prefix_append _ _

/-! ## Three tasks of one key -/

def someTask (id : ℕ) : CookieMonsterTask Unit ℕ := ⟨some (), id⟩

def taskAfter (events : List (TaskEvent Unit ℕ Unit Unit)) : CookieMonster Unit ℕ Unit Unit :=
  events.foldl (CookieMonster.apply true id) .new

theorem step_taskAfter {P : CookieMonster Unit ℕ Unit Unit → TaskEvent Unit ℕ Unit Unit → Prop}
    {events : List (TaskEvent Unit ℕ Unit Unit)} {e : TaskEvent Unit ℕ Unit Unit}
    (h : ((taskSystem true id).restrict P).Run events (taskAfter events)) (hP : P (taskAfter events) e) :
    ((taskSystem true id).restrict P).Run (events ++ [e]) (taskAfter (events ++ [e])) :=
  .step h ⟨hP, List.foldl_concat ..⟩

/-- Two tasks that wait, and one that is submitted when they have run. -/
theorem inOrder_threeTasks :
    (taskAfter [.submit (someTask 0), .submit (someTask 1), .onKeyLoaded () [], .turn, .turn, .submit (someTask 2)]).InOrder id
      (some ()) := by
  have hinit : ((taskSystem true id).restrict (KeepsBack true id (some ()))).Run [] (taskAfter []) := .init rfl
  have hfirst := step_taskAfter (e := .submit (someTask 0)) hinit fun _ _ => rfl
  have hsecond := step_taskAfter (e := .submit (someTask 1)) hfirst (by rintro - (h | ⟨_, -, h⟩) <;> cases h)
  have hloaded := step_taskAfter (e := .onKeyLoaded () []) hsecond trivial
  have hrun := step_taskAfter (e := .turn) (step_taskAfter (e := .turn) hloaded trivial) trivial
  have hthird := step_taskAfter (e := .submit (someTask 2)) hrun fun _ _ => rfl
  exact inOrder_of_run true id (some ()) _ _ hthird

theorem run_taskAfter (events : List (TaskEvent Unit ℕ Unit Unit)) : (taskSystem true id).Run events (taskAfter events) := by
  induction events using List.reverseRecOn with
  | nil => exact .init rfl
  | append_singleton events e ih => exact .step ih (List.foldl_concat ..)

/-- **A task that is submitted by the first of two that were taken out runs before the second, and one that is submitted when
all is loaded before one that waits for its key.** -/
theorem not_inOrder : (∃ m : CookieMonster Unit ℕ Unit Unit, (taskSystem true id).Run
        [.submit (someTask 0), .submit (someTask 1), .onKeyLoaded () [], .turn, .submit (someTask 2)] m ∧
      ¬m.InOrder id (some ())) ∧
    ∃ m : CookieMonster Unit ℕ Unit Unit,
      (taskSystem true id).Run [.submit (someTask 0), .onLoaded [], .turn, .submit (someTask 1)] m ∧
      ¬m.InOrder id (some ()) := by
  constructor
  · exact ⟨_, run_taskAfter _, show ¬(([someTask 0, someTask 2] : List _) <+: [someTask 0, someTask 1, someTask 2]) by decide⟩
  · exact ⟨_, run_taskAfter _, show ¬(([someTask 1] : List _) <+: [someTask 0, someTask 1]) by decide⟩

end Chromium.Net.Cookies
