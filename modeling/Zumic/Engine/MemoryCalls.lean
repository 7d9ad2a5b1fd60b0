/- The calls of the in-memory store and of its session storage (`memory.rs`), with the guards of
each. -/

import Zumic.Auth.Sessions
import Zumic.Engine.Backends
import Zumic.Lib.ShardedMap

namespace Zumic.Engine

open Auth Database Lib Lib.ByteString Lib.Guards Lib.Utf8

inductive MemoryTable where
  | data
  | geo
  | sessions
  deriving DecidableEq

abbrev GeoTable := List (Sds × Geo.GeoSet)

structure MemoryTables where
  store : InMemoryStore GeoTable
  sessions : SessionStorage

/-- How a table spreads its keys over its shards. -/
structure Spread (κ : Type) where
  count : Nat
  shardOf : κ → Nat
  inRange : ∀ key, shardOf key < count

structure MemorySharding where
  data : Spread Sds
  geo : Spread Sds
  sessions : Spread SessionId

abbrev MemoryMap (κ α : Type) := ShardedMap MemoryTable MemoryTables κ α

abbrev MemoryRun (α : Type) := Guarded (ShardLock MemoryTable) MemoryTables α

namespace MemorySharding

variable (sharding : MemorySharding)

def dataMap : MemoryMap Sds Value where
  table := .data
  count := sharding.data.count
  shardOf := sharding.data.shardOf
  inRange := sharding.data.inRange
  get t := t.store.data
  set m t := { t with store := { t.store with data := m } }
  get_set _ _ := rfl
  set_get _ := rfl
  set_set _ _ _ := rfl

def geoMap : MemoryMap Sds Geo.GeoSet where
  table := .geo
  count := sharding.geo.count
  shardOf := sharding.geo.shardOf
  inRange := sharding.geo.inRange
  get t := t.store.geo
  set m t := { t with store := { t.store with geo := m } }
  get_set _ _ := rfl
  set_get _ := rfl
  set_set _ _ _ := rfl

def sessionMap : MemoryMap SessionId SessionData where
  table := .sessions
  count := sharding.sessions.count
  shardOf := sharding.sessions.shardOf
  inRange := sharding.sessions.inRange
  get t := t.sessions
  set m t := { t with sessions := m }
  get_set _ _ := rfl
  set_get _ := rfl
  set_set _ _ _ := rfl

end MemorySharding

/-- The members of a value that is a set. -/
def asSet (command : String) : Value → Except StoreError (List Sds)
  | .set members => .ok members
  | _ => .error (.wrongType (Str.lit (command ++ ": key is not a set")))

/-- What a command makes of the members of a set: its result, and the members after it. Any other
value is an error, and stays. -/
def onSet {α : Type} (command : String) (change : List Sds → α × List Sds) (value : Value) :
    Except StoreError α × Value :=
  match asSet command value with
  | .ok members => (.ok (change members).1, .set (change members).2)
  | .error e => (.error e, value)

section

variable (sharding : MemorySharding)

def insertAll : List (Sds × Value) → MemoryRun Unit
  | [] => pure ()
  | e :: rest => do
      sharding.dataMap.insert e.1 e.2
      insertAll rest

def viewAll : List Sds → MemoryRun (List (Option Value))
  | [] => pure []
  | key :: rest => do
      let value ← sharding.dataMap.view key id
      let others ← viewAll rest
      pure (value :: others)

/-- Puts a removed value under another key. -/
def putRenamed {α : Type} (dst : Sds) (done : α) : Option Value → MemoryRun (Except StoreError α)
  | some value => do
      sharding.dataMap.insert dst value
      pure (.ok done)
  | none => pure (.error .keyNotFound)

def rename (src dst : Sds) : MemoryRun (Except StoreError Unit) := do
  let removed ← sharding.dataMap.remove src
  putRenamed sharding dst () removed

def renamenx (src dst : Sds) : MemoryRun (Except StoreError Bool) := do
  let known ← sharding.dataMap.view dst id
  if known.isSome then pure (.ok false)
  else do
    let removed ← sharding.dataMap.remove src
    putRenamed sharding dst true removed

/-- A set that is not there is made, when the guard of its look-up is gone. -/
def createSet (key : Sds) (added : List Sds) :
    Option (Except StoreError Nat) → MemoryRun (Except StoreError Nat)
  | some result => pure result
  | none => do
      sharding.dataMap.insert key (.set (addMembers [] added).1)
      pure (.ok (addMembers [] added).2)

def sadd (key : Sds) (added : List Sds) : MemoryRun (Except StoreError Nat) := do
  let known ← sharding.dataMap.update key
    (onSet "SADD" fun members => ((addMembers members added).2, (addMembers members added).1))
  createSet sharding key added known

/-- What is read off a set; `absent` stands for one that is not there. -/
def readSet {α : Type} (command : String) (key : Sds) (absent : α) (f : List Sds → α) :
    MemoryRun (Except StoreError α) := do
  let known ← sharding.dataMap.view key fun value => (asSet command value).map f
  pure (known.getD (.ok absent))

def dropEmptied {α : Type} (key : Sds) (emptied : Bool) (result : α) :
    MemoryRun (Except StoreError α) :=
  if emptied then do
    let _ ← sharding.dataMap.remove key
    pure (.ok result)
  else pure (.ok result)

/-- An emptied set is removed when the guard of its look-up is gone. -/
def removeEmptied {α : Type} (key : Sds) (absent : α) :
    Option (Except StoreError (α × Bool)) → MemoryRun (Except StoreError α)
  | none => pure (.ok absent)
  | some (.error e) => pure (.error e)
  | some (.ok (result, emptied)) => dropEmptied sharding key emptied result

def srem (key : Sds) (removed : List Sds) : MemoryRun (Except StoreError Nat) := do
  let known ← sharding.dataMap.update key (onSet "SREM" fun members =>
    (((removeMembers members removed).2, decide ((removeMembers members removed).1 = [])),
      (removeMembers members removed).1))
  removeEmptied sharding key 0 known

def setRng (rng : Rng) : MemoryRun Unit :=
  modify fun t => { t with store := { t.store with rng := rng } }

/-- What was drawn; the random numbers it took are used up. -/
def keepDrawn : Except StoreError (List Sds × Rng) → MemoryRun (Except StoreError (List Sds))
  | .ok (drawn, rng) => do
      setRng rng
      pure (.ok drawn)
  | .error e => pure (.error e)

def srandmember (key : Sds) (count : Int64) : MemoryRun (Except StoreError (List Sds)) := do
  let rng ← read fun t => t.store.rng
  let drawn ← readSet sharding "SRANDMEMBER" key ([], rng) fun members =>
    randomMembers members count rng
  keepDrawn drawn

def spop (key : Sds) (count : Int64) : MemoryRun (Except StoreError (List Sds)) := do
  let rng ← read fun t => t.store.rng
  let known ← sharding.dataMap.update key (onSet "SPOP" fun members =>
    let popped := popMembers (popCount count) members rng
    (((popped.1, popped.2.2), decide (popped.2.1 = [])), popped.2.1))
  let drawn ← removeEmptied sharding key ([], rng) known
  keepDrawn drawn

/-- The calls that the stores have in common. -/
def plainCall : StorageCall → MemoryRun StorageAnswer
  | .set key value => do
      sharding.dataMap.insert key value
      pure (.ok .done)
  | .get key => do
      let value ← sharding.dataMap.view key id
      pure (.ok (.value value))
  | .del key => do
      let removed ← sharding.dataMap.remove key
      pure (.ok (.flag removed.isSome))
  | .mset _ entries => do
      insertAll sharding entries
      pure (.ok .done)
  | .mget keys => do
      let values ← viewAll sharding keys
      pure (.ok (.values values))
  | .rename src dst => do
      let r ← rename sharding src dst
      pure (r.map fun _ => .done)
  | .renamenx src dst => do
      let r ← renamenx sharding src dst
      pure (r.map .flag)
  | .flushdb => do
      sharding.dataMap.clear
      pure (.ok .done)
  | .sadd key members => do
      let r ← sadd sharding key members
      pure (r.map .count)
  | .srem key members => do
      let r ← srem sharding key members
      pure (r.map .count)
  | .scard key => do
      let r ← readSet sharding "SCARD" key 0 List.length
      pure (r.map .count)
  | .smembers key => do
      let r ← readSet sharding "SMEMBERS" key [] id
      pure (r.map .members)
  | .sismember key member => do
      let r ← readSet sharding "SISMEMBER" key false fun members => decide (member ∈ members)
      pure (r.map .flag)
  | .dbsize => do
      let n ← sharding.dataMap.len
      pure (.ok (.count n))

end

section

variable (sharding : MemorySharding) (sphere : Geo.Sphere) (utf8Text : Bytes → Str)

/-- `as_str`, with the text of its error. -/
def sdsStr (b : Sds) : Except StoreError Str :=
  match Str.fromUtf8 b with
  | some text => .ok text
  | none => .error (.utf8 (utf8Text b))

/-- Adds a member to a set. -/
def addToSet (set : Geo.GeoSet) (point : Geo.GeoPoint) (member : Sds) :
    Except StoreError Bool × Geo.GeoSet :=
  match sdsStr utf8Text member with
  | .ok name => (.ok (set.get name).isNone, set.add name point)
  | .error e => (.error e, set)

/-- A set that is not there is made, also when the member is refused. -/
def geoAdd (key : Sds) (point : Geo.GeoPoint) (member : Sds) :
    MemoryRun (Except StoreError Bool) :=
  hold (sharding.geoMap.guard key .write) <|
    act fun t =>
      let added := addToSet utf8Text ((sharding.geoMap.look key t).getD .new) point member
      (added.1, sharding.geoMap.set (Assoc.insert (sharding.geoMap.get t) key added.2) t)

def geoDist (key member1 member2 : Sds) (unit : Str) : MemoryRun (Except StoreError (Option ℚ)) := do
  let known ← sharding.geoMap.view key fun set =>
    (set.dist sphere (displaySds member1) (displaySds member2)).map (distToUnit unit)
  pure (.ok known.join)

def geoPos (key member : Sds) : MemoryRun (Except StoreError (Option Geo.GeoPoint)) := do
  let known ← sharding.geoMap.view key fun set => (sdsStr utf8Text member).map set.get
  pure (known.getD (.ok none))

/-- A member without a point would be a panic. -/
def reportHits : Option (List GeoHit) → MemoryRun (Except StoreError (List GeoHit))
  | some hits => pure (.ok hits)
  | none => panic

/-- The search in a set that is borrowed; it may rebuild the set. -/
def searchBorrowed (key : Sds) (center : Geo.GeoPoint) (radius : ℚ) (unit : Str)
    (set : Geo.GeoSet) : MemoryRun (Except StoreError (List GeoHit)) := do
  let hits ← act fun t =>
    let found := searchSet sphere set center radius unit
    (found.1, sharding.geoMap.set (Assoc.insert (sharding.geoMap.get t) key found.2) t)
  reportHits hits

def geoRadius (key : Sds) (center : Geo.GeoPoint) (radius : ℚ) (unit : Str) :
    MemoryRun (Except StoreError (List GeoHit)) :=
  borrow (sharding.geoMap.guard key .write) (sharding.geoMap.look key)
    (searchBorrowed sharding sphere key center radius unit) (pure (.ok []))

/-- The search around a point that was looked up, if there was one. -/
def geoRadiusAround (key : Sds) (radius : ℚ) (unit : Str) :
    Except StoreError (Option Geo.GeoPoint) → MemoryRun (Except StoreError (List GeoHit))
  | .error e => pure (.error e)
  | .ok none => pure (.ok [])
  | .ok (some center) => geoRadius sharding sphere key center radius unit

/-- The set is still borrowed for reading when the search asks for it. -/
def geoRadiusByMember (key member : Sds) (radius : ℚ) (unit : Str) :
    MemoryRun (Except StoreError (List GeoHit)) :=
  borrow (sharding.geoMap.guard key .read) (sharding.geoMap.look key)
    (fun set =>
      geoRadiusAround sharding sphere key radius unit ((sdsStr utf8Text member).map set.get))
    (pure (.ok []))

end

section

variable (sharding : MemorySharding)

/-- The sessions that a test picks, in the order of the table. -/
def listSessions (pick : SessionData → Bool) : MemoryRun SessionStorage := do
  let all ← sharding.sessionMap.iter
  pure (all.filter fun p => pick p.2)

def removeSessions : SessionStorage → MemoryRun Unit
  | [] => pure ()
  | p :: rest => do
      let _ ← sharding.sessionMap.remove p.1
      removeSessions rest

/-- Lists sessions, and removes them when the walk is over. -/
def removePicked (pick : SessionData → Bool) : MemoryRun Nat := do
  let listed ← listSessions sharding pick
  removeSessions sharding listed
  pure listed.length

/-- `f` works on the session alone. -/
def withSession {R : Type} (id : SessionId) (f : SessionData → R × SessionData) :
    MemoryRun (Except SessionError R) := do
  let known ← sharding.sessionMap.update id f
  match known with
  | some r => pure (.ok r)
  | none => pure (.error .notFound)

end

/-- The calls of `Storage` and of `SessionStorage`; `R` is what a `with_session` returns. -/
inductive MemoryCall (R : Type) where
  | plain (call : StorageCall)
  | srandmember (key : Sds) (count : Int64)
  | spop (key : Sds) (count : Int64)
  | save
  | geoAdd (key : Sds) (point : Geo.GeoPoint) (member : Sds)
  | geoDist (key member1 member2 : Sds) (unit : Str)
  | geoPos (key member : Sds)
  | geoRadius (key : Sds) (center : Geo.GeoPoint) (radius : ℚ) (unit : Str)
  | geoRadiusByMember (key member : Sds) (radius : ℚ) (unit : Str)
  | insertSession (id : SessionId) (data : SessionData)
  | getSession (id : SessionId)
  | removeSession (id : SessionId)
  | withSession (id : SessionId) (f : SessionData → R × SessionData)
  | getUserSessions (username : Bytes)
  | removeUserSessions (username : Bytes)
  | cleanupExpired (instant : Nat)
  | lenSession
  | isEmpty

inductive MemoryReply (R : Type) where
  | answer (r : StorageAnswer)
  | picked (r : Except StoreError (List Sds))
  | geoAdded (r : Except StoreError Bool)
  | distance (r : Except StoreError (Option ℚ))
  | position (r : Except StoreError (Option Geo.GeoPoint))
  | hits (r : Except StoreError (List GeoHit))
  | done
  | session (s : Option SessionData)
  | ran (r : Except SessionError R)
  | sessions (l : SessionStorage)
  | count (n : Nat)
  | flag (b : Bool)

def MemoryCall.run {R : Type} (sharding : MemorySharding) (sphere : Geo.Sphere)
    (utf8Text : Bytes → Str) : MemoryCall R → MemoryRun (MemoryReply R)
  | plain call => do
      let r ← plainCall sharding call
      pure (.answer r)
  | srandmember key count => do
      let r ← Engine.srandmember sharding key count
      pure (.picked r)
  | spop key count => do
      let r ← Engine.spop sharding key count
      pure (.picked r)
  | save => pure (.answer (.error (.unsupportedOperation
      (Str.lit "SAVE not supported for in-memory storage"))))
  | geoAdd key point member => do
      let r ← Engine.geoAdd sharding utf8Text key point member
      pure (.geoAdded r)
  | geoDist key member1 member2 unit => do
      let r ← Engine.geoDist sharding sphere key member1 member2 unit
      pure (.distance r)
  | geoPos key member => do
      let r ← Engine.geoPos sharding utf8Text key member
      pure (.position r)
  | geoRadius key center radius unit => do
      let r ← Engine.geoRadius sharding sphere key center radius unit
      pure (.hits r)
  | geoRadiusByMember key member radius unit => do
      let r ← Engine.geoRadiusByMember sharding sphere utf8Text key member radius unit
      pure (.hits r)
  | insertSession id data => do
      sharding.sessionMap.insert id data
      pure .done
  | getSession id => do
      let s ← sharding.sessionMap.view id fun data => data
      pure (.session s)
  | removeSession id => do
      let s ← sharding.sessionMap.remove id
      pure (.session s)
  | withSession id f => do
      let r ← Engine.withSession sharding id f
      pure (.ran r)
  | getUserSessions username => do
      let l ← listSessions sharding fun data => data.username = username
      pure (.sessions l)
  | removeUserSessions username => do
      let n ← removePicked sharding fun data => data.username = username
      pure (.count n)
  | cleanupExpired instant => do
      let n ← removePicked sharding fun data => data.isExpired instant
      pure (.count n)
  | lenSession => do
      let n ← sharding.sessionMap.len
      pure (.count n)
  | isEmpty => do
      let n ← sharding.sessionMap.len
      pure (.flag (n = 0))

end Zumic.Engine
