import AssuranceLayer.DamlValue
import AssuranceLayer.DepthFirst
import AssuranceLayer.Primitives

set_option autoImplicit false

/-!
The effects of a prepared transaction: its nodes in the order of a walk from the roots, and what the
walk counts on its way.
-/
namespace AssuranceLayer.Prepared
open SortedMap DamlValue

/-! ## Prepared transactions -/

structure Create where
  contractId : String
  packageName : String
  templateId : Option Identifier
  argument : Option LfValue
  signatories : List String
  stakeholders : List String

structure Exercise where
  contractId : String
  packageName : String
  templateId : Option Identifier
  signatories : List String
  stakeholders : List String
  actingParties : List String
  interfaceId : Option Identifier
  choiceId : String
  chosenValue : Option LfValue
  consuming : Bool
  children : List String
  exerciseResult : Option LfValue
  choiceObservers : List String

structure Fetch where
  contractId : String
  packageName : String
  templateId : Option Identifier
  signatories : List String
  stakeholders : List String
  actingParties : List String
  interfaceId : Option Identifier

inductive NodeType where
  | create (c : Create)
  | exercise (e : Exercise)
  | fetch (f : Fetch)
  | rollback (children : List String)

structure Node where
  nodeType : Option NodeType

structure DamlNode where
  nodeId : String
  versionedNode : Option Node

structure DamlTransaction where
  version : String
  roots : List String
  nodes : List DamlNode

structure SubmitterInfo where
  actAs : List String
  commandId : String

structure MetadataInput where
  contract : Option Create
  createdAt : UInt64

structure Metadata where
  submitterInfo : Option SubmitterInfo
  synchronizerId : String
  mediatorGroup : UInt32
  transactionUuid : String
  preparationTime : UInt64
  inputContracts : List MetadataInput
  minLedgerEffectiveTime : Option UInt64
  maxLedgerEffectiveTime : Option UInt64
  maxRecordTime : Option UInt64

/-- What a message that was left out stands for. -/
def Metadata.default : Metadata := ⟨none, "", 0, "", 0, [], none, none, none⟩

structure PreparedTransaction where
  transaction : Option DamlTransaction
  metadata : Option Metadata

inductive DecodeError where
  /-- "prepared transaction has no `transaction` field" -/
  | missingTransaction
deriving DecidableEq

/-! ## Effects -/

inductive NodeKind where
  | create
  | exercise
  | fetch
  | rollback
deriving DecidableEq

structure EffectNode where
  nodeId : String
  depth : ℕ
  kind : NodeKind
  templateId : Option String
  packageName : Option String
  interfaceId : Option String
  contractId : Option String
  choice : Option String
  consuming : Option Bool
  actingParties : List String
  signatories : List String
  stakeholders : List String
  choiceObservers : List String
  argument : Option Json
  result : Option Json
  children : List String

structure EffectCounts where
  creates : ℕ
  archives : ℕ
  exercises : ℕ
  fetches : ℕ
  rollbacks : ℕ
deriving DecidableEq

structure InputContract where
  contractId : String
  templateId : Option String
  createdAt : Option String
  signatories : List String
  stakeholders : List String
  consumed : Bool

/-- What would be committed. -/
structure Effects where
  transactionVersion : String
  roots : List String
  nodes : List EffectNode
  counts : EffectCounts
  informees : List String
  inputContracts : List InputContract
  actAs : List String
  commandId : String
  synchronizerId : String
  mediatorGroup : UInt32
  transactionUuid : String
  preparationTime : Option String
  minLedgerEffectiveTime : Option String
  maxLedgerEffectiveTime : Option String
  maxRecordTime : Option String
  preparedSizeBytes : ℕ
  preparedTransactionHashHex : String
  hashingSchemeVersion : String

/-- `pkgid:Module:Entity`. -/
def identifierString (id : Identifier) : String :=
  id.packageId ++ ":" ++ id.moduleName ++ ":" ++ id.entityName

def nonEmpty (s : String) : Option String := if s = "" then none else some s

abbrev SortedSet := SortedMap String Unit

def SortedSet.extend (set : SortedSet) (names : List String) : SortedSet :=
  names.foldl (fun s name => s.insert name ()) set

/-- What a walk accumulates. -/
structure WalkState where
  out : List EffectNode
  counts : EffectCounts
  informees : SortedSet
  consumed : SortedSet
  visited : SortedSet

def WalkState.initial : WalkState := ⟨[], ⟨0, 0, 0, 0, 0⟩, empty, empty, empty⟩

variable (chrono : Chrono) (includeArguments : Bool)

def arg (v : Option LfValue) : Option Json := if includeArguments then v.map (valueToJson chrono) else none

def effectOf (nodeId : String) (depth : ℕ) : NodeType → EffectNode
  | .create c =>
    { nodeId, depth
      kind := .create
      templateId := c.templateId.map identifierString
      packageName := nonEmpty c.packageName
      interfaceId := none
      contractId := nonEmpty c.contractId
      choice := none
      consuming := none
      actingParties := []
      signatories := c.signatories
      stakeholders := c.stakeholders
      choiceObservers := []
      argument := arg chrono includeArguments c.argument
      result := none
      children := [] }
  | .exercise e =>
    { nodeId, depth
      kind := .exercise
      templateId := e.templateId.map identifierString
      packageName := nonEmpty e.packageName
      interfaceId := e.interfaceId.map identifierString
      contractId := nonEmpty e.contractId
      choice := nonEmpty e.choiceId
      consuming := some e.consuming
      actingParties := e.actingParties
      signatories := e.signatories
      stakeholders := e.stakeholders
      choiceObservers := e.choiceObservers
      argument := arg chrono includeArguments e.chosenValue
      result := arg chrono includeArguments e.exerciseResult
      children := e.children }
  | .fetch f =>
    { nodeId, depth
      kind := .fetch
      templateId := f.templateId.map identifierString
      packageName := nonEmpty f.packageName
      interfaceId := f.interfaceId.map identifierString
      contractId := nonEmpty f.contractId
      choice := none
      consuming := none
      actingParties := f.actingParties
      signatories := f.signatories
      stakeholders := f.stakeholders
      choiceObservers := []
      argument := none
      result := none
      children := [] }
  | .rollback children =>
    { nodeId, depth
      kind := .rollback
      templateId := none
      packageName := none
      interfaceId := none
      contractId := none
      choice := none
      consuming := none
      actingParties := []
      signatories := []
      stakeholders := []
      choiceObservers := []
      argument := none
      result := none
      children := children }

/-- The children a walk goes on to. -/
def NodeType.children : NodeType → List String
  | .create _ => []
  | .exercise e => e.children
  | .fetch _ => []
  | .rollback children => children

def EffectCounts.add (counts : EffectCounts) : NodeType → EffectCounts
  | .create _ => { counts with creates := counts.creates + 1 }
  | .exercise e =>
    { counts with
      exercises := counts.exercises + 1
      archives := if e.consuming then counts.archives + 1 else counts.archives }
  | .fetch _ => { counts with fetches := counts.fetches + 1 }
  | .rollback _ => { counts with rollbacks := counts.rollbacks + 1 }

/-- The parties that see a node. -/
def NodeType.informees : NodeType → List String
  | .create c => c.signatories ++ c.stakeholders
  | .exercise e => e.signatories ++ e.stakeholders ++ e.actingParties ++ e.choiceObservers
  | .fetch f => f.signatories ++ f.stakeholders ++ f.actingParties
  | .rollback _ => []

/-- The contract a node archives. -/
def NodeType.archives : NodeType → Option String
  | .exercise e => if e.consuming then some e.contractId else none
  | _ => none

def WalkState.visit (s : WalkState) (nodeId : String) : WalkState :=
  { s with visited := s.visited.insert nodeId () }

def WalkState.record (s : WalkState) (nodeId : String) (depth : ℕ) (n : NodeType) : WalkState :=
  { s with
    out := s.out ++ [effectOf chrono includeArguments nodeId depth n]
    counts := s.counts.add n
    informees := SortedSet.extend s.informees n.informees
    consumed := SortedSet.extend s.consumed n.archives.toList }

abbrev ById := SortedMap String Node

/-- Of nodes under one id the last counts. -/
def byId (nodes : List DamlNode) : ById :=
  ofList (nodes.filterMap fun n => n.versionedNode.map fun v1 => (n.nodeId, v1))

/-- One call, which has not returned when the fuel is spent. -/
def walk (nodes : ById) : ℕ → String → ℕ → WalkState → Option WalkState
  | 0, _, _, _ => none
  | fuel + 1, nodeId, depth, s =>
    if nodeId ∈ s.visited.keys then some s
    else
      match (nodes.get? nodeId).bind Node.nodeType with
      | none => some (s.visit nodeId)
      | some n =>
        n.children.foldlM
          (fun s child => if child ∈ nodes.keys then walk nodes fuel child (depth + 1) s else some s)
          ((s.visit nodeId).record chrono includeArguments nodeId depth n)

/-- The walk from every root, then from every node not met on the way. -/
def walkAll (fuel : ℕ) (tx : DamlTransaction) : Option WalkState := do
  let nodes := byId tx.nodes
  let s ← tx.roots.foldlM (fun s root => walk chrono includeArguments nodes fuel root 0 s) .initial
  tx.nodes.foldlM
    (fun s n => if n.nodeId ∈ s.visited.keys then some s
      else walk chrono includeArguments nodes fuel n.nodeId 0 s) s

def inputContract (consumed : SortedSet) (ic : MetadataInput) : InputContract :=
  let cid := (ic.contract.map Create.contractId).getD ""
  { consumed := cid ∈ consumed.keys
    contractId := cid
    templateId := (ic.contract.bind Create.templateId).map identifierString
    createdAt := microsToRfc3339 chrono ic.createdAt
    signatories := (ic.contract.map Create.signatories).getD []
    stakeholders := (ic.contract.map Create.stakeholders).getD [] }

/-- The effects, once the walk has returned. The base64 decoder is taken as it comes. -/
def effectsOf (base64Decode : String → Option (List UInt8)) (fuel : ℕ) (prepared : PreparedTransaction)
    (preparedSizeBytes : ℕ) (hashBase64 hashingSchemeVersion : String) :
    Option (Except DecodeError Effects) :=
  match prepared.transaction with
  | none => some (.error .missingTransaction)
  | some tx =>
    let metadata := prepared.metadata.getD .default
    let submitter := metadata.submitterInfo.getD ⟨[], ""⟩
    (walkAll chrono includeArguments fuel tx).map fun s => .ok
      { transactionVersion := tx.version
        roots := tx.roots
        nodes := s.out
        counts := s.counts
        informees := s.informees.keys
        inputContracts := metadata.inputContracts.map (inputContract chrono s.consumed)
        actAs := submitter.actAs
        commandId := submitter.commandId
        synchronizerId := metadata.synchronizerId
        mediatorGroup := metadata.mediatorGroup
        transactionUuid := metadata.transactionUuid
        preparationTime := microsToRfc3339 chrono metadata.preparationTime
        minLedgerEffectiveTime := metadata.minLedgerEffectiveTime.bind (microsToRfc3339 chrono)
        maxLedgerEffectiveTime := metadata.maxLedgerEffectiveTime.bind (microsToRfc3339 chrono)
        maxRecordTime := metadata.maxRecordTime.bind (microsToRfc3339 chrono)
        preparedSizeBytes
        preparedTransactionHashHex := ((base64Decode (trim hashBase64)).map hexEncode).getD ""
        hashingSchemeVersion }

end AssuranceLayer.Prepared
