import IntelliStore.AppError
import IntelliStore.Library.ObjectStore
import IntelliStore.Storage.Chunking

/-! The `StorageBackend` interface and `MinioStorageBackend`. -/

namespace IntelliStore.Storage
open Library

/-- What storage-service throws: an `AppError`, or the error of a library it calls. -/
inductive Failure where
  | app (e : AppError)
  | library
  deriving DecidableEq

structure StorageBackend (σ : Type) where
  put : String → Bytes → σ → Except Failure Unit × σ
  get : String → σ → Except Failure Bytes
  delete : String → σ → Except Failure Unit × σ
  exists_ : String → σ → Bool × σ

abbrev Objects := ObjectStore String Bytes

/-- A bucket with the number of `statObject` and `putObject` calls made on it. -/
structure Bucket where
  objects : Objects
  stats : Nat
  puts : Nat

/-- A put that fails may leave the key as it was, or leave something under it: all of the data when
only the reply is lost, or a part of them. -/
inductive PutOutcome where
  | done
  | failed (left : Option Bytes)
  deriving DecidableEq

/-- A removal that fails may have been carried out. -/
inductive RemoveOutcome where
  | done
  | failed (removed : Bool)
  deriving DecidableEq

def RemoveOutcome.removes : RemoveOutcome → Bool
  | .done => true
  | .failed removed => removed

/-- How the calls of the MinIO client end, by their number or by their key. -/
structure Faults where
  stat : Nat → Bool
  put : Nat → PutOutcome
  remove : String → RemoveOutcome

def Faults.none : Faults := ⟨fun _ => false, fun _ => .done, fun _ => .done⟩

def Bucket.ofObjects (objects : Objects) : Bucket := ⟨objects, 0, 0⟩

namespace MinioStorageBackend

/-- Succeeds only if the object is present. -/
def statObject (faults : Faults) (key : String) (b : Bucket) : Except Failure Unit × Bucket :=
  (if key ∈ b.objects ∧ faults.stat b.stats = false then .ok () else .error .library,
    { b with stats := b.stats + 1 })

/-- The objects after a put that failed. -/
def leaving (objects : Objects) (key : String) : Option Bytes → Objects
  | none => objects
  | some left => objects.insert key left

def put (faults : Faults) (key : String) (data : Bytes) (b : Bucket) :
    Except Failure Unit × Bucket :=
  match faults.put b.puts with
  | .done => (.ok (), { b with objects := b.objects.insert key data, puts := b.puts + 1 })
  | .failed left =>
    (.error .library, { b with objects := leaving b.objects key left, puts := b.puts + 1 })

def get (key : String) (b : Bucket) : Except Failure Bytes :=
  match b.objects.lookup key with
  | some data => .ok data
  | none => .error .library

/-- Removing an absent object succeeds. -/
def delete (faults : Faults) (key : String) (b : Bucket) : Except Failure Unit × Bucket :=
  match faults.remove key with
  | .done => (.ok (), { b with objects := b.objects.erase key })
  | .failed removed =>
    (.error .library, if removed then { b with objects := b.objects.erase key } else b)

/-- Every error of `statObject` is taken for absence. -/
def exists_ (faults : Faults) (key : String) (b : Bucket) : Bool × Bucket :=
  match statObject faults key b with
  | (.ok (), b) => (true, b)
  | (.error _, b) => (false, b)

end MinioStorageBackend

def minioStorageBackend (faults : Faults) : StorageBackend Bucket where
  put := MinioStorageBackend.put faults
  get := MinioStorageBackend.get
  delete := MinioStorageBackend.delete faults
  exists_ := MinioStorageBackend.exists_ faults

end IntelliStore.Storage
