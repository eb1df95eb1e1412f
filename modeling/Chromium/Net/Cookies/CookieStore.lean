import Chromium.Base.Values
import Chromium.Net.Cookies.CookieTasks
import Mathlib.Data.List.Sort
import Mathlib.Data.List.Dedup

/-!
# The loads of a cookie store

How `chrome/browser/net/sqlite_persistent_cookie_store.cc` hands the rows of its database to a cookie monster.  The DB thread
loads all domain keys, one key at a time in their order, and between two of them the keys that are asked for.  What it loads
is collected in one buffer, and each notification on the IO thread takes all that is there.

Three functions compute a domain key: `getEffectiveDomain` the one that a task waits for, `getKey` the one that a cookie is
filed under, and `GetDomainAndRegistry`, which is given here, the one that the database is loaded by.
-/

namespace Chromium.Net.Cookies

open Lib Lib.SortedMap

/-- `'.'`. -/
def period : UInt8 := 46

def http : List UInt8 := [104, 116, 116, 112]

def https : List UInt8 := [104, 116, 116, 112, 115]

inductive ExpiryAndKeyScheme
  | keepRecentAndPurgeEtldp1
  | discardRecentAndPurgeDomain
  deriving DecidableEq

def domainIsHostOnly (domainString : List UInt8) : Bool := domainString.head? ≠ some period

section Keys

variable (getDomainAndRegistry : List UInt8 → List UInt8)

def getEffectiveDomain (scheme host : List UInt8) : List UInt8 :=
  if scheme = http ∨ scheme = https then getDomainAndRegistry host
  else if domainIsHostOnly host then host
  else host.drop 1

def getKey (expiryAndKeyScheme : ExpiryAndKeyScheme) (domain : List UInt8) : List UInt8 :=
  if expiryAndKeyScheme = .discardRecentAndPurgeDomain then domain
  else
    let effectiveDomain := if getDomainAndRegistry domain = [] then domain else getDomainAndRegistry domain
    if effectiveDomain.head? = some period then effectiveDomain.drop 1 else effectiveDomain

end Keys

/-- What a task needs of a `GURL`. -/
structure Url where
  scheme : List UInt8
  host : List UInt8
  deriving DecidableEq

/-- A row of the table `cookies`. -/
structure CookieRow (Columns : Type) where
  hostKey : List UInt8
  columns : Columns
  deriving DecidableEq

inductive DbTask
  | loadAndNotify
  | loadKeyAndNotify (key : List UInt8)
  | chainLoadCookies
  deriving DecidableEq

/-- `NotifyOnIOThread`, with the callback `OnLoaded` or `OnKeyLoaded`. -/
inductive IoTask
  | notifyLoaded
  | notifyKeyLoaded (key : List UInt8)
  deriving DecidableEq

/-- `SQLitePersistentCookieStore::Backend`, and the tasks that are posted. -/
structure Backend (Columns : Type) where
  initialized : Bool
  keysToLoad : List (List UInt8 × List (List UInt8))
  cookies : List (CookieRow Columns)
  dbTasks : List DbTask
  ioTasks : List IoTask

namespace Backend

variable {Columns : Type}

def new : Backend Columns := { initialized := false, keysToLoad := [], cookies := [], dbTasks := [], ioTasks := [] }

/-- `insert` of a set of domains. -/
def insertDomain (domain : List UInt8) (domains : List (List UInt8)) : List (List UInt8) :=
  if domains.any (· = domain) then domains else domains.orderedInsert (· ≤ ·) domain

variable (getDomainAndRegistry : List UInt8 → List UInt8)

def addDomain (keysToLoad : List (List UInt8 × List (List UInt8))) (domain : List UInt8) :
    List (List UInt8 × List (List UInt8)) :=
  let key := getDomainAndRegistry domain
  set key (insertDomain domain ((get? key keysToLoad).getD [])) keysToLoad

/-- `SELECT DISTINCT host_key FROM cookies`. -/
def distinctHostKeys (rows : List (CookieRow Columns)) : List (List UInt8) := (rows.map CookieRow.hostKey).dedup

def initializeDatabase (rows : List (CookieRow Columns)) (b : Backend Columns) : Backend Columns :=
  if b.initialized then b
  else
    { b with keysToLoad := (distinctHostKeys rows).foldl (addDomain getDomainAndRegistry) b.keysToLoad, initialized := true }

def rowsOf (rows : List (CookieRow Columns)) (domains : List (List UInt8)) : List (CookieRow Columns) :=
  domains.flatMap fun domain => rows.filter fun row => row.hostKey = domain

def loadCookiesForDomains (rows : List (CookieRow Columns)) (domains : List (List UInt8)) (b : Backend Columns) :
    Backend Columns := { b with cookies := b.cookies ++ rowsOf rows domains }

/-- The first key of `ChainLoadCookies`. -/
def loadFirst (rows : List (CookieRow Columns)) (b : Backend Columns) : Backend Columns :=
  match b.keysToLoad with
  | [] => b
  | (_, domains) :: keysToLoad => { b.loadCookiesForDomains rows domains with keysToLoad := keysToLoad }

def chainLoadCookies (rows : List (CookieRow Columns)) (b : Backend Columns) : Backend Columns :=
  let b := b.loadFirst rows
  if 0 < b.keysToLoad.length then { b with dbTasks := b.dbTasks ++ [.chainLoadCookies] }
  else { b with ioTasks := b.ioTasks ++ [.notifyLoaded] }

/-- `LoadAndNotifyOnDBThread`. -/
def loadAndNotify (rows : List (CookieRow Columns)) (b : Backend Columns) : Backend Columns :=
  (b.initializeDatabase getDomainAndRegistry rows).chainLoadCookies rows

/-- The key of `LoadKeyAndNotifyOnDBThread`, if it is still to be loaded. -/
def loadKey (rows : List (CookieRow Columns)) (key : List UInt8) (b : Backend Columns) : Backend Columns :=
  match get? key b.keysToLoad with
  | none => b
  | some domains => { b.loadCookiesForDomains rows domains with keysToLoad := erase key b.keysToLoad }

/-- `LoadKeyAndNotifyOnDBThread`. -/
def loadKeyAndNotify (rows : List (CookieRow Columns)) (key : List UInt8) (b : Backend Columns) : Backend Columns :=
  let b := (b.initializeDatabase getDomainAndRegistry rows).loadKey rows key
  { b with ioTasks := b.ioTasks ++ [.notifyKeyLoaded key] }

def runDbTask (rows : List (CookieRow Columns)) (b : Backend Columns) : DbTask → Backend Columns
  | .loadAndNotify => b.loadAndNotify getDomainAndRegistry rows
  | .loadKeyAndNotify key => b.loadKeyAndNotify getDomainAndRegistry rows key
  | .chainLoadCookies => b.chainLoadCookies rows

/-- `Load` or `LoadCookiesForKey`. -/
def post : StoreCall (List UInt8) → DbTask
  | .load => .loadAndNotify
  | .loadCookiesForKey key => .loadKeyAndNotify key

end Backend

structure CookieLoad (Id Columns : Type) where
  monster : CookieMonster Url Id (List UInt8) (CookieRow Columns)
  backend : Backend Columns

inductive LoadEvent (Id : Type)
  | submit (task : CookieMonsterTask Url Id)
  | dbThread
  | ioThread
  | turn

namespace CookieLoad

variable {Id Columns : Type} (getDomainAndRegistry : List UInt8 → List UInt8) (rows : List (CookieRow Columns))
  (s : CookieLoad Id Columns)

def effectiveDomain (url : Url) : List UInt8 := getEffectiveDomain getDomainAndRegistry url.scheme url.host

/-- A task is submitted, and what it asks the store for is posted to the DB thread. -/
def submit (task : CookieMonsterTask Url Id) : CookieLoad Id Columns :=
  let monster := s.monster.submit true (effectiveDomain getDomainAndRegistry) task
  let calls := monster.storeCalls.drop s.monster.storeCalls.length
  { monster := monster, backend := { s.backend with dbTasks := s.backend.dbTasks ++ calls.map Backend.post } }

/-- `NotifyOnIOThread`. -/
def notify : IoTask → CookieLoad Id Columns
  | .notifyLoaded => { monster := s.monster.onLoaded s.backend.cookies, backend := { s.backend with cookies := [] } }
  | .notifyKeyLoaded key =>
    { monster := s.monster.onKeyLoaded key s.backend.cookies, backend := { s.backend with cookies := [] } }

/-- What happens next.  The IO thread goes on with its tasks when the loops that it is in have come to their ends. -/
def next : LoadEvent Id → Option (CookieLoad Id Columns)
  | .submit task => some (s.submit getDomainAndRegistry task)
  | .dbThread =>
    match s.backend.dbTasks with
    | [] => none
    | task :: dbTasks =>
      some { s with backend := { s.backend with dbTasks := dbTasks }.runDbTask getDomainAndRegistry rows task }
  | .ioThread =>
    match s.monster.loops, s.backend.ioTasks with
    | [], task :: ioTasks => some ({ s with backend := { s.backend with ioTasks := ioTasks } }.notify task)
    | _, _ => none
  | .turn => if s.monster.loops = [] then none else some { s with monster := s.monster.turn }

end CookieLoad

def loadSystem {Id Columns : Type} (getDomainAndRegistry : List UInt8 → List UInt8) (rows : List (CookieRow Columns)) :
    TransSys (CookieLoad Id Columns) (LoadEvent Id) where
  init s := s = { monster := .new, backend := .new }
  step s e s' := s.next getDomainAndRegistry rows e = some s'

end Chromium.Net.Cookies
