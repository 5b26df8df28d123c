import AeorDb.Store.Records

namespace AeorDb.Store

/-- The inputs the engine hashes. Text inputs carry their domain in the text itself; the other
constructors are the domains whose input holds encoded records. -/
inductive Preimage (H : Type) where
  | text (s : Str)
  | whole (bytes : List UInt8)
  | chunk (bytes : List UInt8)
  | fileContent (record : FileRecord H)
  | fileIdentity (header : Str) (chunks : List H)
  | dirContent (data : DirData H)
  | btree (node : BTreeNode H)
  | symlinkContent (record : SymlinkRecord)

structure Hasher (H : Type) where
  compute : Preimage H → H
  injective : Function.Injective compute
  hashLength : ℕ

namespace Hasher

variable {H : Type} (hs : Hasher H)

@[simp] lemma compute_inj (a b : Preimage H) : hs.compute a = hs.compute b ↔ a = b := hs.injective.eq_iff

def filePathHash (path : Str) : H := hs.compute (.text ("file:".toList ++ path))
def directoryPathHash (path : Str) : H := hs.compute (.text ("dir:".toList ++ path))
def symlinkPathHash (path : Str) : H := hs.compute (.text ("symlink:".toList ++ path))
def snapshotKey (name : Str) : H := hs.compute (.text ("snap:".toList ++ name))
def forkKey (name : Str) : H := hs.compute (.text ("::aeordb:fork:".toList ++ name))

def deletionKey (path : Str) (deletedAt : ℤ) : H :=
  hs.compute (.text ("del:".toList ++ path ++ ":".toList ++ (toString deletedAt).toList))

def fileContentHash (record : FileRecord H) : H := hs.compute (.fileContent record)
def directoryContentHash (data : DirData H) : H := hs.compute (.dirContent data)
def symlinkContentHash (record : SymlinkRecord) : H := hs.compute (.symlinkContent record)
def chunkHash (bytes : List UInt8) : H := hs.compute (.chunk bytes)
def btreeHash (node : BTreeNode H) : H := hs.compute (.btree node)

def fileIdentityHash (path : Str) (contentType : Option Str) (chunks : List H) : H :=
  hs.compute (.fileIdentity (path ++ '\x00' :: contentType.getD [] ++ ['\x00']) chunks)

def symlinkIdentityHash (path target : Str) : H :=
  hs.compute (.text ("symlinkid:".toList ++ path ++ '\x00' :: target))

end Hasher

end AeorDb.Store
