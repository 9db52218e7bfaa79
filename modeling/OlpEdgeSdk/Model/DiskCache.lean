import Mathlib.Data.Char
import Mathlib.Data.List.Lex
import OlpEdgeSdk.Base.SortedMap

/-!
# The disk tier

`DiskCache` puts a leveldb database behind `Put`, `Get`, `Remove` and a removal by prefix. The
database is third-party code: it is a map ordered by key, whose reads succeed and whose
writes succeed or leave it as it is. `writes` says, for the writes to come, which it will be;
a write that the size limit refuses is one that does not succeed.

SOURCE: DiskCache.cpp, DiskCache.h
-/

set_option autoImplicit false

namespace OlpEdgeSdk.Model

open OlpEdgeSdk.Base

/-- `database` is the open database, if there is one. -/
structure DiskCache where
  database : Option (SortedMap (List Char) (List Char))
  writes : ℕ → Bool

namespace DiskCache

/-- One write: on success the database becomes `after`. -/
def write (d : DiskCache) (after : SortedMap (List Char) (List Char)) : DiskCache × Bool :=
  (⟨if d.writes 0 then some after else d.database, fun n => d.writes (n + 1)⟩, d.writes 0)

/-- SOURCE: DiskCache.cpp:246-261 -/
def put (d : DiskCache) (key value : List Char) : DiskCache × Bool :=
  match d.database with
  | none => (d, false)
  | some db => d.write (db.insert key value)

/-- SOURCE: DiskCache.cpp:263-269 -/
def get (d : DiskCache) (key : List Char) : Option (List Char) :=
  d.database.bind fun db => db.find key

/-- SOURCE: DiskCache.cpp:271-275 -/
def remove (d : DiskCache) (key : List Char) : DiskCache × Bool :=
  match d.database with
  | none => (d, false)
  | some db => d.write (db.erase key)

/-- The keys the iterator of `RemoveKeysWithPrefix` passes: all of them for the empty prefix;
otherwise those from the first key that is not smaller than the prefix on, as long as they
start with it.
SOURCE: DiskCache.cpp:287-297 -/
def scan (keys : List (List Char)) (keyPrefix : List Char) : List (List Char) :=
  if keyPrefix = [] then keys
  else (keys.dropWhile fun key => key < keyPrefix).takeWhile fun key =>
    keyPrefix.isPrefixOf key

/-- SOURCE: DiskCache.cpp:277-307 -/
def removeKeysWithPrefix (d : DiskCache) (keyPrefix : List Char) : DiskCache × Bool :=
  match d.database with
  | none => (d, false)
  | some db => d.write (db.eraseAll (scan (Assoc.keys db.entries) keyPrefix))

end DiskCache

end OlpEdgeSdk.Model
