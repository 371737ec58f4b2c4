import Ostracon.Types.Time
import Ostracon.Types.VoterSet
/-!
# `state/state.go` and `state/validation.go`: the time of a block

`MedianTime` makes one weighted time of each signature of a commit that is not
absent.  It finds the voter by the address the signature carries and weighs
the signature's timestamp by that voter's weight.  The total it passes to
`WeightedMedian` is the sum of the weights it found.

`validateBlock` checks a proposed block against the state before it is
executed.  It checks the last commit with `VerifyCommit`, and the block time
must be later than the last block's and equal to the median time of the last
commit.  `VerifyCommit` matches the signatures to the voters by index, while
`MedianTime` matches them by address.

Only the checks of `validateBlock` that read the data below are modelled: the
chain ID, the height, the last block ID, the last commit, the proposer's
address, the time and the round.  The checks of header hashes, of
`Block.ValidateBasic`, of the evidence size, of the proposer selection and of
the VRF proof are left out.  None of them reads a timestamp, a weight or the
address of a commit signature beyond its length.
-/

namespace Ostracon.State

open Ostracon.Types Ostracon.Crypto Ostracon.Crypto.Merkle GoInt

variable {K S : Type}

/-- The fields of `State` that the checks below read. -/
structure CommittedState (K : Type) where
  chainID : String
  initialHeight : Int
  lastBlockHeight : Int
  lastBlockID : BlockID
  lastBlockTime : Int
  /-- `LastVoters`: the voters of the last block, who signed its commit. -/
  lastVoters : VoterSet K
  /-- The validators of `Validators`, whose addresses `HasAddress` reads. -/
  validators : List (Validator K)

/-- The fields of `Block` that the checks below read. -/
structure Block (S : Type) where
  chainID : String
  height : Int
  round : Int
  time : Int
  lastBlockID : BlockID
  proposerAddress : Bytes
  lastCommit : Commit S

/-! ## `MedianTime` -/

/-- The weighted time `MedianTime` makes of a commit signature.  An absent
signature, or one whose address is no voter's, leaves the entry `nil`. -/
def weightedTimeOf (voters : VoterSet K) (commitSig : CommitSig S) : Option WeightedTime :=
  if commitSig.absent then none
  else
    match voters.getByAddress commitSig.validatorAddress with
    | none => none
    | some (_, validator) => some (newWeightedTime commitSig.timestamp validator.votingWeight)

/-- `MedianTime`.  The Go loop fills `weightedTimes[i]` for the signature at
`i` and adds the weight of every entry it fills to `totalVotingWeight`. -/
def medianTime (commit : Commit S) (voters : VoterSet K) : Int :=
  let weightedTimes := commit.signatures.map (weightedTimeOf voters)
  let totalVotingWeight :=
    weightedTimes.reduceOption.foldl (fun total wt => add total wt.weight) 0
  weightedMedian weightedTimes totalVotingWeight

/-! ## `validateBlock` -/

/-- `crypto.AddressSize`. -/
def addressSize : Nat := 20

/-- `ValidatorSet.HasAddress`. -/
def hasAddress (validators : List (Validator K)) (address : Bytes) : Bool :=
  validators.any fun val => val.address == address

/-- The errors of the modelled checks of `validateBlock`. -/
inductive BlockError
  /-- "wrong Block.Header.ChainID. Expected %v, got %v" -/
  | wrongChainID (expected got : String)
  /-- "wrong Block.Header.Height. Expected %v for initial block, got %v", with
  the block's height first as the source passes it -/
  | wrongInitialHeight (height initialHeight : Int)
  /-- "wrong Block.Header.Height. Expected %v, got %v" -/
  | wrongHeight (expected got : Int)
  /-- "wrong Block.Header.LastBlockID.  Expected %v, got %v" -/
  | wrongLastBlockID (expected got : BlockID)
  /-- "initial block can't have LastCommit signatures" -/
  | initialLastCommitSignatures
  /-- the error of `VerifyCommit` on the last commit, returned as it is -/
  | lastCommit (err : CommitError)
  /-- "expected ProposerAddress size %d, got %d" -/
  | proposerAddressSize (expected got : Nat)
  /-- "block.Header.ProposerAddress %X is not a validator" -/
  | notValidator (address : Bytes)
  /-- "block time %v not greater than last block time %v" -/
  | timeNotGreater (time lastBlockTime : Int)
  /-- "invalid block time. Expected %v, got %v" -/
  | invalidBlockTime (expected got : Int)
  /-- "block time %v is not equal to genesis time %v" -/
  | notGenesisTime (time genesisTime : Int)
  /-- "block height %v lower than initial height %v" -/
  | belowInitialHeight (height initialHeight : Int)
  /-- `ErrInvalidRound`: "Block round(%d) is mismatched to consensus round(%d)" -/
  | invalidRound (consensusRound blockRound : Int)
  deriving DecidableEq, Repr

section Validate

variable (c : Primitives K CanonicalVote S)

/-- The check of the last commit: none for the initial block, `VerifyCommit`
against the last voters otherwise. -/
def validateLastCommit (state : CommittedState K) (block : Block S) : Except BlockError Unit :=
  if block.height = state.initialHeight then
    if block.lastCommit.signatures.length ≠ 0 then .error .initialLastCommitSignatures else .ok ()
  else
    match state.lastVoters.verifyCommit c state.chainID state.lastBlockID (sub block.height 1)
        block.lastCommit with
    | .error err => .error (.lastCommit err)
    | .ok () => .ok ()

/-- The check that the proposer's address is a validator's. -/
def validateProposerAddress (state : CommittedState K) (block : Block S) : Except BlockError Unit :=
  if block.proposerAddress.length ≠ addressSize then
    .error (.proposerAddressSize addressSize block.proposerAddress.length)
  else if !hasAddress state.validators block.proposerAddress then
    .error (.notValidator block.proposerAddress)
  else .ok ()

/-- The check of the block time: after the initial height it is later than
the last block time and equal to the median time of the last commit; at the
initial height it is the genesis time. -/
def validateBlockTime (state : CommittedState K) (block : Block S) : Except BlockError Unit :=
  if block.height > state.initialHeight then
    if ¬block.time > state.lastBlockTime then .error (.timeNotGreater block.time state.lastBlockTime)
    else
      let medianTime := medianTime block.lastCommit state.lastVoters
      if block.time ≠ medianTime then .error (.invalidBlockTime medianTime block.time) else .ok ()
  else if block.height = state.initialHeight then
    let genesisTime := state.lastBlockTime
    if block.time ≠ genesisTime then .error (.notGenesisTime block.time genesisTime) else .ok ()
  else .error (.belowInitialHeight block.height state.initialHeight)

/-- `validateBlock`, with the checks that the model has data for, in the
source's order. -/
def validateBlock (state : CommittedState K) (round : Int) (block : Block S) : Except BlockError Unit :=
  if block.chainID ≠ state.chainID then .error (.wrongChainID state.chainID block.chainID)
  else if state.lastBlockHeight = 0 ∧ block.height ≠ state.initialHeight then
    .error (.wrongInitialHeight block.height state.initialHeight)
  else if state.lastBlockHeight > 0 ∧ block.height ≠ add state.lastBlockHeight 1 then
    .error (.wrongHeight (add state.lastBlockHeight 1) block.height)
  else if block.lastBlockID ≠ state.lastBlockID then
    .error (.wrongLastBlockID state.lastBlockID block.lastBlockID)
  else do
    validateLastCommit c state block
    validateProposerAddress state block
    validateBlockTime state block
    if block.round > round then .error (.invalidRound round block.round) else .ok ()

end Validate

end Ostracon.State
