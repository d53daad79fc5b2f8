import AlphaDesk.Replay.Engine

/-! # Walk-forward folds

A dataset is split into a training range, validation ranges behind it and a holdout. Each
fold trains on all that lies before its validation range, without the rows that a purge
or an embargo window excludes. The rows of a fold are named by their identifiers, and a
reader resolves those.
-/

namespace AlphaDesk

namespace WalkForward

inductive ResearchError
  | incompleteManifest (field : String)
  | holdoutNotImplemented
  | holdoutLeakage (field : String)
  | splitInvalid (field : String)

structure ValidationPolicy where
  labelHorizonBlocks : UInt64
  embargoBlocks : UInt64

/-- The part of a row that decides where it belongs. -/
structure LabeledRow where
  id : String
  featureHeight : BlockHeight
  labelStart : BlockHeight
  labelEnd : BlockHeight
  deriving DecidableEq

/-- The part of a manifest that a dataset reads. -/
structure ExperimentManifest where
  hypothesis : String
  owner : String
  codeCommit : String
  rustToolchain : String
  marketUniverseVersion : String
  walletScoreVersion : String
  clusterVersionPolicy : String
  trainingRange : BlockRange
  validationRanges : List BlockRange
  holdoutRange : BlockRange
  dataManifestHash : String
  modelConfigHash : String
  costModelVersion : String
  executionLatencyAssumptions : String
  promotionMetrics : List String
  reviewers : List String

def ExperimentManifest.missingField (m : ExperimentManifest) : Option String :=
  [("hypothesis", (trim m.hypothesis).isEmpty), ("owner", (trim m.owner).isEmpty),
    ("code_commit", (trim m.codeCommit).isEmpty),
    ("rust_toolchain", (trim m.rustToolchain).isEmpty),
    ("market_universe_version", (trim m.marketUniverseVersion).isEmpty),
    ("wallet_score_version", (trim m.walletScoreVersion).isEmpty),
    ("cluster_version_policy", (trim m.clusterVersionPolicy).isEmpty),
    ("validation_ranges", m.validationRanges.isEmpty),
    ("data_manifest_hash", (trim m.dataManifestHash).isEmpty),
    ("model_config_hash", (trim m.modelConfigHash).isEmpty),
    ("cost_model_version", (trim m.costModelVersion).isEmpty),
    ("execution_latency_assumptions", (trim m.executionLatencyAssumptions).isEmpty),
    ("promotion_metrics", m.promotionMetrics.isEmpty),
    ("reviewers", m.reviewers.isEmpty)].findSome? fun (field, missing) =>
      if missing then some field else none

/-- The failure of an invalid range is named by the field it is for. -/
def newRange (start stop : BlockHeight) (field : String) : Except ResearchError BlockRange :=
  if start ≤ stop then .ok ⟨start, stop⟩ else .error (.splitInvalid field)

def LabeledRow.labelRange (row : LabeledRow) : Except ResearchError BlockRange :=
  newRange row.labelStart row.labelEnd "label"

def contains (range : BlockRange) (height : BlockHeight) : Bool :=
  range.startInclusive ≤ height && height ≤ range.endInclusive

def overlaps (left right : BlockRange) : Bool :=
  left.startInclusive ≤ right.endInclusive && right.startInclusive ≤ left.endInclusive

def strictlyBefore (left right : BlockRange) : Bool := left.endInclusive < right.startInclusive

def intersect (left right : BlockRange) : Option BlockRange :=
  let start := if right.startInclusive < left.startInclusive then left.startInclusive
    else right.startInclusive
  let stop := if left.endInclusive < right.endInclusive then left.endInclusive
    else right.endInclusive
  if start ≤ stop then some ⟨start, stop⟩ else none

def heightSub (height : BlockHeight) (amount : UInt64) : Except ResearchError BlockHeight :=
  if height < amount then .error (.splitInvalid "window_underflow") else .ok (height - amount)

/-- Every range lies behind the one before it. The last one is returned. -/
def validateOrder : BlockRange → List BlockRange → Except ResearchError BlockRange
  | previous, [] => .ok previous
  | previous, range :: ranges =>
    if strictlyBefore previous range then validateOrder range ranges
    else .error (.splitInvalid "validation_ranges")

def validateOrderedSplits (training : BlockRange) (validation : List BlockRange)
    (holdout : BlockRange) : Except ResearchError Unit :=
  if validation.isEmpty then .error (.splitInvalid "validation_ranges")
  else do
    let previous ← validateOrder training validation
    if strictlyBefore previous holdout then return () else throw (.splitInvalid "holdout_range")

structure ResearchDataset where
  policy : ValidationPolicy
  trainingRange : BlockRange
  validationRanges : List BlockRange
  holdoutRange : BlockRange
  rows : List LabeledRow

structure ValidationFold where
  train : BlockRange
  validation : BlockRange
  purge : List BlockRange
  embargo : List BlockRange

namespace ResearchDataset

/-- No row outside the holdout has a label that reaches into it. -/
def refuseHoldoutLabel (holdout : BlockRange) (row : LabeledRow) : Except ResearchError Unit :=
  if contains holdout row.featureHeight then .ok ()
  else do
    let label ← row.labelRange
    if overlaps label holdout then throw (.holdoutLeakage "label.holdout") else return ()

def refuseLabel (row : LabeledRow) : Except ResearchError Unit := do
  let _ ← row.labelRange
  return ()

def fromParts (policy : ValidationPolicy) (manifest : ExperimentManifest)
    (rows : List LabeledRow) : Except ResearchError ResearchDataset :=
  match manifest.missingField with
  | some field => .error (.incompleteManifest field)
  | none => do
    validateOrderedSplits manifest.trainingRange manifest.validationRanges manifest.holdoutRange
    rows.forM refuseLabel
    rows.forM (refuseHoldoutLabel manifest.holdoutRange)
    return ⟨policy, manifest.trainingRange, manifest.validationRanges, manifest.holdoutRange, rows⟩

end ResearchDataset

/-- The rows whose labels reach into the validation. -/
def purgeWindows (train validation : BlockRange) (horizon : UInt64) :
    Except ResearchError (List BlockRange) :=
  if horizon = 0 then .ok []
  else do
    let stop ← heightSub validation.startInclusive 1
    let start ← heightSub validation.startInclusive horizon
    let window ← newRange start stop "purge"
    return (intersect window train).toList

def embargoWindows (train validation : BlockRange) (purge : List BlockRange) (embargo : UInt64) :
    Except ResearchError (List BlockRange) :=
  if embargo = 0 then .ok []
  else do
    let endExclusive := (purge.head?.map (·.startInclusive)).getD validation.startInclusive
    let stop ← heightSub endExclusive 1
    let start ← heightSub endExclusive embargo
    let window ← newRange start stop "embargo"
    return (intersect window train).toList

def generateFold (policy : ValidationPolicy) (train validation : BlockRange) :
    Except ResearchError ValidationFold :=
  if !strictlyBefore train validation then .error (.splitInvalid "fold_order")
  else do
    let purge ← purgeWindows train validation policy.labelHorizonBlocks
    let embargo ← embargoWindows train validation purge policy.embargoBlocks
    return ⟨train, validation, purge, embargo⟩

/-- The folds behind the first one train on all up to the validation before them. -/
def generateLaterFolds (policy : ValidationPolicy) (training : BlockRange) :
    BlockRange → List BlockRange → Except ResearchError (List ValidationFold)
  | _, [] => .ok []
  | previous, validation :: ranges => do
    let train ← newRange training.startInclusive previous.endInclusive "expanding_train"
    let fold ← generateFold policy train validation
    let folds ← generateLaterFolds policy training validation ranges
    return fold :: folds

def generateFolds (training : BlockRange) (validationRanges : List BlockRange)
    (policy : ValidationPolicy) : Except ResearchError (List ValidationFold) :=
  match validationRanges with
  | [] => .ok []
  | validation :: ranges => do
    let fold ← generateFold policy training validation
    let folds ← generateLaterFolds policy training validation ranges
    return fold :: folds

def ResearchDataset.folds (d : ResearchDataset) : Except ResearchError (List ValidationFold) :=
  generateFolds d.trainingRange d.validationRanges d.policy

inductive Bucket
  | train
  | validation
  | purged
  | embargoed
  deriving DecidableEq

structure FoldBuckets where
  ids : Bucket → List String

def FoldBuckets.push (buckets : FoldBuckets) (bucket : Bucket) (id : String) : FoldBuckets :=
  ⟨fun b => if b = bucket then buckets.ids b ++ [id] else buckets.ids b⟩

end WalkForward

end AlphaDesk
