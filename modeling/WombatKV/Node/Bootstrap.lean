import WombatKV.Foundation.Search
import WombatKV.Node.BlockNode
import WombatKV.Node.KvRuns

/-! How a process fills its index at startup. -/

namespace WombatKV

open Call

def sidecarRawTailKeyPrefix : Text := "wombatkv/v1/sidecar/raw_tail/b3=".toList

def blockKeyInfix : Text := '/' :: blockKeyPrefix

def sidecarKeyInfix : Text := '/' :: sidecarRawTailKeyPrefix

def decodeHex32AnyCase (hex : Text) : Option BlockHash :=
  if exact : (utf8 hex).length = 64 then
    (decodeHash decodeHexNibble (utf8 hex) exact).toOption
  else none

def unknownRoot (now : UInt64) : BlockMeta :=
  .newRoot 0 (Vector.replicate 24 0) (Vector.replicate 16 0) now

inductive ListedKey
  | block (hash : BlockHash)
  | unreadableBlock
  | sidecar
  | unrecognized
  deriving DecidableEq

def ListedKey.ofKey (key : Text) : ListedKey :=
  match splitAtFirst blockKeyInfix key with
  | some (_, hex) =>
    match decodeHex32AnyCase hex with
    | some hash => .block hash
    | none => .unreadableBlock
  | none => if (splitAtFirst sidecarKeyInfix key).isSome then .sidecar else .unrecognized

def hashOfListedKey (key : Text) : Option BlockHash :=
  match ListedKey.ofKey key with
  | .block hash => some hash
  | _ => none

def relativeSidecarKey (objectKey : Text) : Text :=
  match splitAtFirst "/wombatkv/v1/".toList objectKey with
  | some (before, _) => objectKey.drop (before.length + 1)
  | none => objectKey

namespace BlockNode

variable {ε : Type}

def indexListedKeys : List Text → Nat → List Text → Call (Halt ε) BlockNode (Nat × List Text)
  | [], loaded, sidecars => return (loaded, sidecars)
  | key :: rest, loaded, sidecars =>
    match ListedKey.ofKey key with
    | .block hash => do
      let now ← nowNs
      insertIndex hash (unknownRoot now)
      indexListedKeys rest (loaded + 1) sidecars
    | .sidecar => indexListedKeys rest loaded (sidecars ++ [key])
    | .unreadableBlock | .unrecognized => indexListedKeys rest loaded sidecars

def prewarmSidecars (ns : Text) (written : Text → Bool) :
    List Text → Call (Halt ε) BlockNode PUnit
  | [] => return ()
  | objectKey :: rest => do
    let key := relativeSidecarKey objectKey
    let _ ← attempt (onStore (WombatKVKvStore.getKv ns key (written key)))
    prewarmSidecars ns written rest

def bootstrapWorldKnowledge (ns : Text) (written : Text → Bool) :
    Call (Halt EmbedError) BlockNode Nat := do
  let keys ← onStore (WombatKVKvStore.listNamespace ns)
  let (loaded, sidecars) ← indexListedKeys keys 0 []
  prewarmSidecars ns written sidecars
  return loaded

def slateLoaded (node : BlockNode) : BlockNode :=
  match node.slatedbIndex with
  | some slate => { node with metadataIndex := (bootstrapFromSlatedb node.metadataIndex slate).2 }
  | none => node

def hydrate (ns : Text) (written : Text → Bool) : Call (Halt ε) BlockNode PUnit := do
  modify slateLoaded
  let _ ← attempt (bootstrapWorldKnowledge ns written)
  return ()

end BlockNode

def WombatKVKvStore.listedHashes (store : WombatKVKvStore) (ns : Text) : List BlockHash :=
  (store.objectStore.objects.keys.filter ((store.listPrefixOf ns).isPrefixOf ·)).filterMap
    hashOfListedKey

def fetchableBlocks (store : WombatKVKvStore) (ns : Text) : Set BlockHash :=
  {hash | store.objectKey ns (blockKeyForHash hash) ∈ store.objectStore.objects}

def WombatKVKvStore.namespaceRoot (store : WombatKVKvStore) (ns : Text) : Text :=
  if ns = [] then store.s3Prefix else store.s3Prefix ++ ('/' :: ns)

def WombatKVKvStore.BlockKeysCanonical (store : WombatKVKvStore) (ns : Text) : Prop :=
  (∀ key ∈ store.objectStore.objects, store.listPrefixOf ns <+: key → ∀ hash,
      hashOfListedKey key = some hash → key = store.objectKey ns (blockKeyForHash hash)) ∧
    (blockKeyInfix <:+: store.namespaceRoot ns → ∀ hash,
      store.objectKey ns (blockKeyForHash hash) ∉ store.objectStore.objects)

def InMemoryMetadataIndex.totalBytes (index : InMemoryMetadataIndex) : UInt64 :=
  (index.entries.toList.map fun entry => entry.2.payloadBytes).sum

def BlockMeta.unstamped (block : BlockMeta) : BlockMeta := block.touch 0

def InMemoryMetadataIndex.KeepsRecords (index : InMemoryMetadataIndex)
    (slate : SlateDbMetadataIndex) : Prop :=
  ∀ hash block, slate.readMeta hash = some block → ∃ kept, index.entries[hash]? = some kept ∧
    kept.payloadBytes = block.payloadBytes ∧ kept.parentHash = block.parentHash ∧
      kept.blockSeq = block.blockSeq ∧ kept.modelDigest = block.modelDigest

def BlockMeta.saysNothing (block : BlockMeta) : Bool :=
  block.payloadBytes = 0 && block.parentHash = BlockMeta.zeroHash && block.blockSeq = 0 &&
    block.modelDigest = Vector.replicate 24 0

def nodeOnBucket (objectKey : Text) : BlockNode where
  store := { plainStore with
    objectStore := { putPolicy := .replace, objects := (∅ : Objects).insert objectKey [65] } }
  metadataIndex := ⟨∅⟩
  slatedbIndex := none
  clock := fun _ => 1
  stepsLeft := none

def tensHash : BlockHash := Vector.replicate 32 0xaa

def slateWithRoot (payloadBytes : UInt64) : SlateDbMetadataIndex where
  db := (∅ : Std.ExtTreeMap Bytes Bytes).insert (SlateDbMetadataIndex.keyByHash tensHash)
    (SlateDbMetadataIndex.encodeMetaValue fieldArchive
      (.newRoot payloadBytes (Vector.replicate 24 0) (Vector.replicate 16 0) 7))
  ns := "a".toList
  named := by decide
  slashless := by decide
  rkyv := fieldArchive

def nodeWithRoot (payloadBytes : UInt64) : BlockNode :=
  { nodeOnBucket ("p/a/".toList ++ blockKeyForHash tensHash) with
    slatedbIndex := some (slateWithRoot payloadBytes) }

end WombatKV
