import Chromium.Lib.TransSys

/-!
# Tasks of a cookie monster

How `net/base/cookie_monster.cc` keeps tasks back until the cookies that they need are loaded.  A task for a URL waits in a
queue of the URL's domain key, any other task in a queue of its own.  The queue of a key is taken out as a whole when the key
is loaded; the other one is taken out task by task.  A task that runs may submit others, and so may other threads while a
loop is between two tasks, so a loop is kept as a state that it is in.
-/

namespace Chromium.Net.Cookies

open Lib

/-- A task, and the URL if it is for one. -/
structure CookieMonsterTask (URL Id : Type) where
  url : Option URL
  id : Id
  deriving DecidableEq

/-- What the backing store is asked for. -/
inductive StoreCall (Key : Type)
  | load
  | loadCookiesForKey (key : Key)
  deriving DecidableEq

/-- A loop that runs tasks: that of `OnKeyLoaded` with the tasks it has taken out, or `InvokeQueue`. -/
inductive Loop (URL Id Key : Type)
  | onKeyLoaded (key : Key) (tasksQueued : List (CookieMonsterTask URL Id))
  | invokeQueue

structure CookieMonster (URL Id Key Cookie : Type) where
  initialized : Bool
  loaded : Bool
  keysLoaded : List Key
  tasksQueued : Key → Option (List (CookieMonsterTask URL Id))
  queue : List (CookieMonsterTask URL Id)
  /-- The calls of the store, in their order. -/
  storeCalls : List (StoreCall Key)
  /-- The cookies that `StoreLoadedCookies` was given. -/
  storedCookies : List Cookie
  /-- The loops that run, the innermost first. -/
  loops : List (Loop URL Id Key)
  submitted : List (CookieMonsterTask URL Id)
  ran : List (CookieMonsterTask URL Id)

namespace CookieMonster

variable {URL Id Key Cookie : Type} [DecidableEq Key] (hasStore : Bool) (effectiveDomain : URL → Key)
  (m : CookieMonster URL Id Key Cookie)

def new : CookieMonster URL Id Key Cookie :=
  { initialized := false, loaded := false, keysLoaded := [], tasksQueued := fun _ => none, queue := [], storeCalls := [],
    storedCookies := [], loops := [], submitted := [], ran := [] }

def initIfNecessary : CookieMonster URL Id Key Cookie :=
  if m.initialized then m
  else if hasStore then { m with storeCalls := m.storeCalls ++ [.load], initialized := true }
  else { m with loaded := true, initialized := true }

def run (task : CookieMonsterTask URL Id) : CookieMonster URL Id Key Cookie := { m with ran := m.ran ++ [task] }

def doCookieTask (task : CookieMonsterTask URL Id) : CookieMonster URL Id Key Cookie :=
  let m := m.initIfNecessary hasStore
  if m.loaded then m.run task else { m with queue := m.queue ++ [task] }

def doCookieTaskForURL (task : CookieMonsterTask URL Id) (url : URL) : CookieMonster URL Id Key Cookie :=
  let m := m.initIfNecessary hasStore
  let key := effectiveDomain url
  if m.loaded ∨ key ∈ m.keysLoaded then m.run task
  else
    match m.tasksQueued key with
    | none =>
      { m with
        storeCalls := m.storeCalls ++ [.loadCookiesForKey key]
        tasksQueued := Function.update m.tasksQueued key (some [task]) }
    | some tasks => { m with tasksQueued := Function.update m.tasksQueued key (some (tasks ++ [task])) }

def submit (task : CookieMonsterTask URL Id) : CookieMonster URL Id Key Cookie :=
  let m := { m with submitted := m.submitted ++ [task] }
  match task.url with
  | none => m.doCookieTask hasStore task
  | some url => m.doCookieTaskForURL hasStore effectiveDomain task url

/-- `OnLoaded`, to the start of the loop. -/
def onLoaded (cookies : List Cookie) : CookieMonster URL Id Key Cookie :=
  { m with storedCookies := m.storedCookies ++ cookies, loops := .invokeQueue :: m.loops }

/-- `OnKeyLoaded`, to the start of the loop. -/
def onKeyLoaded (key : Key) (cookies : List Cookie) : CookieMonster URL Id Key Cookie :=
  let m := { m with storedCookies := m.storedCookies ++ cookies, keysLoaded := key :: m.keysLoaded }
  match m.tasksQueued key with
  | none => m
  | some tasks =>
    { m with tasksQueued := Function.update m.tasksQueued key none, loops := .onKeyLoaded key tasks :: m.loops }

def turn : CookieMonster URL Id Key Cookie :=
  match m.loops with
  | [] => m
  | .onKeyLoaded _ [] :: loops => { m with loops := loops }
  | .onKeyLoaded key (task :: tasks) :: loops => { m with loops := .onKeyLoaded key tasks :: loops }.run task
  | .invokeQueue :: loops =>
    match m.queue with
    | [] => { m with loaded := true, keysLoaded := [], loops := loops }
    | task :: queue => { m with queue := queue }.run task

end CookieMonster

inductive TaskEvent (URL Id Key Cookie : Type)
  | submit (task : CookieMonsterTask URL Id)
  | onLoaded (cookies : List Cookie)
  | onKeyLoaded (key : Key) (cookies : List Cookie)
  | turn

variable {URL Id Key Cookie : Type} [DecidableEq Key]

def CookieMonster.apply (hasStore : Bool) (effectiveDomain : URL → Key) (m : CookieMonster URL Id Key Cookie) :
    TaskEvent URL Id Key Cookie → CookieMonster URL Id Key Cookie
  | .submit task => m.submit hasStore effectiveDomain task
  | .onLoaded cookies => m.onLoaded cookies
  | .onKeyLoaded key cookies => m.onKeyLoaded key cookies
  | .turn => m.turn

def taskSystem (hasStore : Bool) (effectiveDomain : URL → Key) :
    TransSys (CookieMonster URL Id Key Cookie) (TaskEvent URL Id Key Cookie) where
  init m := m = .new
  step m e m' := m' = m.apply hasStore effectiveDomain e

end Chromium.Net.Cookies
