import EBeacon.Library.Text
import EBeacon.Upstream.PoolHeads

namespace EBeacon.Network

open Text Upstream

def pathSegments (path : String) : List String := split '/' (trim '/' path)

def isVersion (seg : String) : Bool := 2 ≤ seg.length && seg.toList.head? = some 'v'

def parseSlot (seg : String) : Option UInt64 :=
  if seg = "" ∨ 12 < seg.length ∨ !(seg.toList.head?.any isDigit) then none
  else (parseUint64 seg).filter (· ≠ 0)

def pathNumericSlot (path : String) : Option UInt64 :=
  match pathSegments path with
  | seg0 :: seg1 :: seg2 :: seg3 :: seg4 :: rest =>
    if seg0 ≠ "eth" ∨ !isVersion seg1 ∨ seg2 ≠ "beacon" then none
    else if seg3 ∈ ["headers", "blocks", "blinded_blocks", "blobs", "blob_sidecars", "states",
        "execution_payload_envelopes"] then parseSlot seg4
    else if seg3 = "rewards" ∧ seg4 ∈ ["blocks", "sync_committee"] then rest.head?.bind parseSlot
    else none
  | _ => none

def namedSlotIDs : List String := ["head", "finalized", "justified"]

def pathHasNamedSlotID (path : String) : Bool :=
  match pathSegments path with
  | seg0 :: seg1 :: seg2 :: seg3 :: rest =>
    if seg0 ≠ "eth" ∨ !isVersion seg1 ∨ seg2 ≠ "beacon" then false
    else if seg3 = "headers" then rest.head?.all (· ∈ namedSlotIDs)
    else if seg3 ∈ ["blocks", "blinded_blocks", "blobs", "blob_sidecars", "states",
        "execution_payload_envelopes"] then rest.head?.any (· ∈ namedSlotIDs)
    else false
  | _ => false

def isPayloadEnvelopePath (path : String) : Bool :=
  match pathSegments path with
  | _ :: _ :: seg2 :: seg3 :: _ => seg2 = "beacon" && seg3 = "execution_payload_envelopes"
  | _ => false

def pathNumericEpoch (path : String) : Option UInt64 :=
  match pathSegments path with
  | [seg0, seg1, seg2, seg3, seg4, seg5] =>
    if seg0 ≠ "eth" ∨ !isVersion seg1 then none
    else if (seg2 = "beacon" ∧ seg3 = "rewards" ∧ seg4 = "attestations") ∨
        (seg2 = "validator" ∧ seg3 = "duties" ∧ seg4 = "proposer") then parseUint64 seg5
    else none
  | _ => none

def isFinalizedPath (path : String) (finalizedEpoch slotsPerEpoch : UInt64) : Bool :=
  let epochFinalized :=
    (pathNumericEpoch path).any (fun epoch => 2 ≤ finalizedEpoch && epoch ≤ finalizedEpoch - 2)
  if finalizedEpoch = 0 then false
  else match pathNumericSlot path with
    | some slot =>
      if isPayloadEnvelopePath path then
        2 ≤ finalizedEpoch && slot < (finalizedEpoch - 1) * slotsPerEpoch
      else slot ≤ finalizedEpoch * slotsPerEpoch || epochFinalized
    | none => epochFinalized

inductive HistoricalKind
  | none
  | blockByID
  | blobSidecars
  | stateByID
  | attesterDuties
  | proposerDuties
  | syncDuties
  | rewardsEpoch
  | liveness
  | payloadEnvelope
  | ptcDuties
  deriving DecidableEq, Repr

structure HistoricalTarget where
  kind : HistoricalKind
  named : String
  slot : Option UInt64
  root : String
  epoch : Option UInt64
  deriving DecidableEq

namespace HistoricalTarget

def zero : HistoricalTarget := ⟨.none, "", .none, "", .none⟩

def ofEpoch (kind : HistoricalKind) (epoch : UInt64) : HistoricalTarget :=
  { zero with kind := kind, epoch := some epoch }

def isHistorical (t : HistoricalTarget) : Bool := t.kind ≠ .none

def blobSidecarsRetentionEpochs : UInt64 := 4096

def statesRetentionSlots : UInt64 := 8192

def blocksRetentionEpochs : UInt64 := 33024

def olderThan (targetSlot headSlot retentionSlots : UInt64) : Bool :=
  if headSlot ≤ retentionSlots then false else targetSlot < headSlot - retentionSlots

def requiresArchive (t : HistoricalTarget) (headSlot slotsPerEpoch : UInt64) : Bool :=
  if headSlot = 0 ∨ t.named ≠ "" ∨ t.root ≠ "" then false
  else
    let slotsPerEpoch := if slotsPerEpoch = 0 then PoolHeads.defaultSlotsPerEpoch else slotsPerEpoch
    let headEpoch := headSlot / slotsPerEpoch
    match t.kind with
    | .blockByID | .payloadEnvelope =>
      t.slot.any (fun s => olderThan s headSlot (blocksRetentionEpochs * slotsPerEpoch))
    | .blobSidecars =>
      t.slot.any (fun s => olderThan s headSlot (blobSidecarsRetentionEpochs * slotsPerEpoch))
    | .stateByID => t.slot.any (fun s => olderThan s headSlot statesRetentionSlots)
    | .attesterDuties | .proposerDuties | .syncDuties | .ptcDuties | .rewardsEpoch | .liveness =>
      t.epoch.any (fun e => e + 1 < headEpoch)
    | .none => false

end HistoricalTarget

def parseBlockIdentifier (kind : HistoricalKind) (seg : String) : HistoricalTarget :=
  let t := { HistoricalTarget.zero with kind := kind }
  if seg ∈ ["head", "genesis", "finalized", "justified"] then { t with named := seg }
  else if hasPrefix seg "0x" || hasPrefix seg "0X" then { t with root := seg }
  else { t with slot := parseUint64 seg }

def classifyBeaconPath (seg3 : String) (rest : List String) : HistoricalTarget :=
  let byID (kind : HistoricalKind) : HistoricalTarget :=
    (rest.head?.map (parseBlockIdentifier kind)).getD .zero
  match seg3, rest with
  | "blocks", _ | "blinded_blocks", _ | "headers", _ => byID .blockByID
  | "blobs", _ | "blob_sidecars", _ => byID .blobSidecars
  | "states", _ => byID .stateByID
  | "execution_payload_envelopes", _ => byID .payloadEnvelope
  | "rewards", "attestations" :: seg5 :: _ =>
    ((parseUint64 seg5).map (.ofEpoch .rewardsEpoch)).getD .zero
  | "rewards", "blocks" :: seg5 :: _ | "rewards", "sync_committee" :: seg5 :: _
  | "light_client", "bootstrap" :: seg5 :: _ => parseBlockIdentifier .blockByID seg5
  | _, _ => .zero

def classifyValidatorPath (seg3 : String) (rest : List String) : HistoricalTarget :=
  let byEpoch (kind : HistoricalKind) (seg : String) : HistoricalTarget :=
    ((parseUint64 seg).map (.ofEpoch kind)).getD .zero
  match seg3, rest with
  | "liveness", seg4 :: _ => byEpoch .liveness seg4
  | "duties", "attester" :: seg5 :: _ => byEpoch .attesterDuties seg5
  | "duties", "proposer" :: seg5 :: _ => byEpoch .proposerDuties seg5
  | "duties", "sync" :: seg5 :: _ => byEpoch .syncDuties seg5
  | "duties", "ptc" :: seg5 :: _ => byEpoch .ptcDuties seg5
  | _, _ => .zero

def classifyDebugPath (seg3 : String) (rest : List String) : HistoricalTarget :=
  match seg3, rest with
  | "beacon", "states" :: seg5 :: _ => parseBlockIdentifier .stateByID seg5
  | "beacon", "data_column_sidecars" :: seg5 :: _ => parseBlockIdentifier .blobSidecars seg5
  | _, _ => .zero

def classifyHistoricalTarget (path : String) : HistoricalTarget :=
  let p := trimSpace path
  if p = "" ∨ p = "/" then .zero
  else match pathSegments p with
    | "eth" :: seg1 :: seg2 :: seg3 :: rest =>
      if !isVersion seg1 then .zero
      else match seg2 with
        | "beacon" => classifyBeaconPath seg3 rest
        | "validator" => classifyValidatorPath seg3 rest
        | "debug" => classifyDebugPath seg3 rest
        | _ => .zero
    | _ => .zero

def peerDASCustodyBodySignals : List String := ["data columns", "reconstruct blobs"]

def isPeerDASCustodyBody (body : String) : Bool :=
  peerDASCustodyBodySignals.any (fun sig => contains body sig)

def isPruningError (statusCode : ℕ) (body : String) (target : HistoricalTarget) : Bool :=
  if !target.isHistorical then false
  else if target.named ≠ "" ∨ target.kind = .payloadEnvelope then false
  else if statusCode = 404 then true
  else if statusCode = 400 ∧ target.kind = .blobSidecars then isPeerDASCustodyBody body
  else false

example : classifyHistoricalTarget "/eth/v1/beacon/states/head/root" =
    { HistoricalTarget.zero with kind := .stateByID, named := "head" } := by decide

example : (classifyHistoricalTarget "/eth/v2/beacon/blocks/100").requiresArchive 1056869 32 = true := by
  decide

end EBeacon.Network
