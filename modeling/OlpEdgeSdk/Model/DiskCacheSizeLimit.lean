import Mathlib.Data.Char
import Mathlib.Data.List.Lex
import OlpEdgeSdk.Base.Totals

/-!
# The size limit of the disk tier

`DiskCacheSizeLimit` stands between leveldb and its `Env` and keeps the size of the files under
the base path in a counter, which `DiskCache::Put` compares with the maximum. The wrapped `Env`
is third-party code: a map from the paths of the files under the base path to their sizes, whose
calls may fail and then leave it as it is. Whether they fail is a parameter of each call.

SOURCE: DiskCacheSizeLimit.h, DiskCacheSizeLimit.cpp, DiskCache.cpp
-/

set_option autoImplicit false

namespace OlpEdgeSdk.Model

open OlpEdgeSdk.Base

/-- Where a writable file that was handed out writes to: nowhere if its `m_file` is null,
otherwise to a file of the directory or to one that has left it. -/
inductive WritableFile where
  | null
  | path (f : List Char)
  | unlinked
  deriving DecidableEq

/-- A writable file after the deletion of a path. -/
def WritableFile.delete (f : List Char) : WritableFile → WritableFile
  | .path g => if g = f then .unlinked else .path g
  | file => file

/-- A writable file after a path has been given to another file. -/
def WritableFile.rename (s t : List Char) : WritableFile → WritableFile
  | .path g => if g = s then .path t else if g = t then .unlinked else .path g
  | file => file

/-- `files` is the wrapped `Env`, `writables` are the files handed out, oldest first. -/
structure DiskCacheSizeLimit where
  files : SortedMap (List Char) ℕ
  totalSize : UInt64
  enforceStrictDataSave : Bool
  writables : List WritableFile

namespace DiskCacheSizeLimit

/-- The constructor over a directory: `listed` says whether `GetChildren` succeeds and `sizeRead`
for which children `GetFileSize` does.
SOURCE: DiskCacheSizeLimit.h:86-99 -/
def construct (files : SortedMap (List Char) ℕ) (enforceStrictDataSave listed : Bool)
    (sizeRead : List Char → Bool) : DiskCacheSizeLimit where
  files := files
  totalSize :=
    if listed then
      files.entries.foldl
        (fun total child => if sizeRead child.1 then total + .ofNat child.2 else total) 0
    else 0
  enforceStrictDataSave := enforceStrictDataSave
  writables := []

/-- SOURCE: DiskCacheSizeLimit.h:181 -/
def size (e : DiskCacheSizeLimit) : UInt64 := e.totalSize

/-- Whether a file is a log of leveldb. `compare` throws for a name of less than four characters.
SOURCE: DiskCacheSizeLimit.cpp:25-30 -/
def isLogFile (fname : List Char) : Option Bool :=
  if fname.length < 4 then none
  else some (fname.drop (fname.length - 4) = ['.', 'l', 'o', 'g'])

/-- `NewWritableFile` of the wrapped `Env`: an existing file is made empty. -/
def envNewWritableFile (e : DiskCacheSizeLimit) (f : List Char) (ok : Bool) :
    DiskCacheSizeLimit × Option Bool :=
  if ok then
    ({ e with files := e.files.insert f 0, writables := e.writables ++ [.path f] }, some true)
  else (e, some false)

/-- The second component is the status, and none if the call throws.
SOURCE: DiskCacheSizeLimit.cpp:33-44 -/
def newWritableFile (e : DiskCacheSizeLimit) (f : List Char) (ok : Bool) :
    DiskCacheSizeLimit × Option Bool :=
  if e.enforceStrictDataSave then envNewWritableFile e f ok
  else
    match isLogFile f with
    | none => (e, none)
    | some false => envNewWritableFile e f ok
    | some true => ({ e with writables := e.writables ++ [.null] }, some true)

/-- Append to the writable file handed out as number `i`, if there is one.
SOURCE: DiskCacheSizeLimit.h:179, 196-203 -/
def append (e : DiskCacheSizeLimit) (i : ℕ) (size : UInt64) (ok : Bool) :
    Option DiskCacheSizeLimit :=
  e.writables[i]?.map fun file =>
    match file with
    | .null => e
    | .path f =>
      { e with
        totalSize := e.totalSize + size
        files := if ok then e.files.insert f (e.files.amount f + size.toNat) else e.files }
    | .unlinked => { e with totalSize := e.totalSize + size }

/-- The `Env` finds neither the size of a file that does not exist nor the file to delete.
SOURCE: DiskCacheSizeLimit.h:124-128 -/
def deleteFile (e : DiskCacheSizeLimit) (f : List Char) (sizeRead ok : Bool) :
    DiskCacheSizeLimit :=
  match e.files.find f with
  | none => e
  | some size =>
    { e with
      totalSize := if sizeRead then e.totalSize - .ofNat size else e.totalSize
      files := if ok then e.files.erase f else e.files
      writables := if ok then e.writables.map (WritableFile.delete f) else e.writables }

/-- SOURCE: DiskCacheSizeLimit.h:142-145 -/
def renameFile (e : DiskCacheSizeLimit) (s t : List Char) (ok : Bool) : DiskCacheSizeLimit :=
  match e.files.find s with
  | none => e
  | some size =>
    if ok then
      { e with
        files := (e.files.erase s).insert t size
        writables := e.writables.map (WritableFile.rename s t) }
    else e

/-- The test that `DiskCache::Put` starts with. Without a limit there is no environment.
SOURCE: DiskCache.cpp:196, 249-251 -/
def refusesPut (environment : Option DiskCacheSizeLimit) (maxSize : UInt64) : Bool :=
  match environment with
  | none => false
  | some e => maxSize ≠ -1 ∧ e.size ≥ maxSize

/-- The calls that leveldb makes, with what the wrapped `Env` makes of them. -/
inductive Event where
  | newWritableFile (f : List Char) (ok : Bool)
  | append (i : ℕ) (size : UInt64) (ok : Bool)
  | deleteFile (f : List Char) (sizeRead ok : Bool)
  | renameFile (s t : List Char) (ok : Bool)

def step (e : DiskCacheSizeLimit) : Event → Option DiskCacheSizeLimit
  | .newWritableFile f ok => some (newWritableFile e f ok).1
  | .append i size ok => append e i size ok
  | .deleteFile f sizeRead ok => some (deleteFile e f sizeRead ok)
  | .renameFile s t ok => some (renameFile e s t ok)

end DiskCacheSizeLimit

end OlpEdgeSdk.Model
