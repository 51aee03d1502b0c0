import WombatKV.Node.BlobCaches
import WombatKV.Node.Compression
import WombatKV.Store.WalStore

/-! The embeddable key-value store: cache tiers over an object store. -/

namespace WombatKV

open ObjectStore

inductive EmbedError
  | objectStore (error : WalStoreError)
  | invalidConfig (message : String)
  deriving DecidableEq, Repr

inductive HitTier
  | foyer
  | objectStore
  deriving DecidableEq, Repr

inductive GetOutcome
  | hit (tier : HitTier) (payload : Bytes)
  | miss
  deriving DecidableEq, Repr

structure EmbedConfig where
  s3Prefix : Text
  writeThroughS3 : Bool
  compression : BlockCompressionConfig
  deriving DecidableEq, Repr

structure WombatKVKvStore where
  foyer : FoyerHybridCache
  flat : FlatFileKvBlobCache
  objectStore : ObjectStore
  s3Prefix : Text
  writeThroughS3 : Bool
  compression : BlockCompressionConfig
  zstd : Zstd

def encodeForStorage (zstd : Zstd) (payload : Bytes) (cfg : BlockCompressionConfig) (key : Text) :
    Except EmbedError Bytes :=
  if cfg.isEnabled then
    (encodeWithHeader zstd payload cfg).mapError fun error =>
      .invalidConfig ("compress " ++ String.ofList key ++ ": " ++ error.display)
  else .ok payload

namespace WombatKVKvStore

def new (config : EmbedConfig) (zstd : Zstd) (objectStore : ObjectStore) :
    Except EmbedError WombatKVKvStore :=
  if config.s3Prefix = [] then .error (.invalidConfig "s3_prefix must be non-empty")
  else .ok {
    foyer := ⟨∅⟩
    flat := ⟨∅⟩
    objectStore
    s3Prefix := config.s3Prefix
    writeThroughS3 := config.writeThroughS3
    compression := config.compression
    zstd }

def objectKey (store : WombatKVKvStore) (ns key : Text) : Text :=
  if ns = [] then store.s3Prefix ++ ('/' :: key)
  else store.s3Prefix ++ ('/' :: (ns ++ ('/' :: key)))

def cacheKey (store : WombatKVKvStore) (ns key : Text) : Text := store.objectKey ns key

def fileName (store : WombatKVKvStore) (ns key : Text) : Text :=
  FlatFileKvBlobCache.pathForKey (store.cacheKey ns key)

def RoundTrips (store : WombatKVKvStore) (payload : Bytes) : Prop :=
  ∀ stored, encodeWithHeader store.zstd payload store.compression = .ok stored →
    decodeIfCompressed store.zstd stored = payload

def withObjectStore (store : WombatKVKvStore) (objectStore : ObjectStore) : WombatKVKvStore :=
  { store with objectStore }

def onStore {α : Type} (call : Call WalStoreError ObjectStore α) :
    Call EmbedError WombatKVKvStore α :=
  Call.on WombatKVKvStore.objectStore (fun objectStore store => store.withObjectStore objectStore)
    (Call.mapError EmbedError.objectStore call)

def fetchObject (objectKey : Text) : Call EmbedError WombatKVKvStore (Option Bytes) :=
  tryCatch (do
      let stored ← onStore (getObject objectKey)
      return some stored) fun
    | .objectStore (.objectNotFound _) => return none
    | other => throw other

def putFlat (cacheKey : Text) (payload : Bytes) (written : Bool) :
    Call EmbedError WombatKVKvStore PUnit :=
  modify fun store => { store with flat := store.flat.put cacheKey payload written }

def putFoyer (cacheKey : Text) (payload : Bytes) : Call EmbedError WombatKVKvStore PUnit :=
  modify fun store => { store with foyer := store.foyer.put cacheKey payload }

def putKv (ns key : Text) (payload : Bytes) (written : Bool) :
    Call EmbedError WombatKVKvStore Unit := do
  let store ← get
  putFlat (store.cacheKey ns key) payload written
  putFoyer (store.cacheKey ns key) payload
  let onWire ← Call.lift (encodeForStorage store.zstd payload store.compression key)
  if store.writeThroughS3 then onStore (putObject (store.objectKey ns key) onWire)
  else tryCatch (onStore (putObject (store.objectKey ns key) onWire)) fun _ => return ()

def getKv (ns key : Text) (written : Bool) : Call EmbedError WombatKVKvStore GetOutcome := do
  let store ← get
  match store.flat.get (store.cacheKey ns key) with
  | some payload => return .hit .foyer payload
  | none =>
    match store.foyer.get (store.cacheKey ns key) with
    | some payload =>
      putFlat (store.cacheKey ns key) payload written
      return .hit .foyer payload
    | none =>
      match ← fetchObject (store.objectKey ns key) with
      | none => return .miss
      | some stored =>
        let payload := decodeIfCompressed store.zstd stored
        putFlat (store.cacheKey ns key) payload written
        putFoyer (store.cacheKey ns key) payload
        return .hit .objectStore payload

def existsKv (ns key : Text) : Call EmbedError WombatKVKvStore Bool := do
  let store ← get
  if store.foyer.contains (store.cacheKey ns key) then return true
  else onStore (headObject (store.objectKey ns key))

def listPrefixOf (store : WombatKVKvStore) (ns : Text) : Text :=
  if ns = [] then store.s3Prefix ++ ['/'] else store.s3Prefix ++ ('/' :: (ns ++ ['/']))

def listNamespace (ns : Text) : Call EmbedError WombatKVKvStore (List Text) := do
  let store ← get
  onStore (listPrefix (store.listPrefixOf ns))

def listKvKeys (ns : Text) : Call EmbedError WombatKVKvStore (List Text) := do
  let store ← get
  let objectKeys ← onStore (listPrefix (store.listPrefixOf ns))
  return (objectKeys.map store.objectStore.listedName).filterMap
    (·.dropPrefix? (store.listPrefixOf ns))

def restoreObjects : List Text → Call EmbedError WombatKVKvStore Nat
  | [] => return 0
  | objectKey :: rest => do
    let store ← get
    match ← fetchObject objectKey with
    | none => restoreObjects rest
    | some stored =>
      putFoyer objectKey (decodeIfCompressed store.zstd stored)
      let restored ← restoreObjects rest
      return restored + 1

def restoreFromS3 (ns : Text) : Call EmbedError WombatKVKvStore Nat := do
  let objectKeys ← listNamespace ns
  restoreObjects objectKeys

def deleteKv (ns key : Text) (removed : Bool) : Call EmbedError WombatKVKvStore Bool := do
  let store ← get
  set { store with flat := store.flat.remove (store.cacheKey ns key) removed }
  onStore (deleteObject (store.objectKey ns key))

def clearFoyer (store : WombatKVKvStore) : WombatKVKvStore :=
  { store with foyer := store.foyer.clear }

def clearFlatCache (store : WombatKVKvStore) : WombatKVKvStore :=
  { store with flat := store.flat.clear }

end WombatKVKvStore

end WombatKV
