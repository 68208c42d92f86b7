import InferenceServer.SpecDecode.Memory
import InferenceServer.Lib.Ragged

/-!
# The rejection sampler

After a step with draft tokens, `rejection_sample` (`vllm/v1/sample/rejection_sampler.py`) decides which
drafts are kept. The drafts of all requests lie in one array, and so do the argmaxes of the target
model, the recovered tokens and the random numbers; the running sums of the numbers of drafts say where
a request begins. Two kernels write the sampled tokens into one buffer with a row for each request,
one kernel for the greedy requests and one for the others. What they do not write stays a placeholder,
and `parse_output` drops it.

A kernel runs one program for each request, and the programs may run in any order. The probabilities are
left out: what a program uses of them is the outcome of one comparison for each draft. So are the argmax
of the target probabilities and the sampling of the recovered tokens, which are arrays here.
-/

namespace InferenceServer.SpecDecode

open Outcome Ragged

/-- `PLACEHOLDER_TOKEN_ID`. -/
def placeholderTokenId : Int := -1

/-- What `rejection_sample` gets. -/
structure RejectionInputs where
  draftTokenIds : List TokenId
  numDraftTokens : List Nat
  maxSpecLen : Nat
  cuNumDraftTokens : List Nat
  /-- `target_probs.argmax(dim=-1)`. -/
  targetArgmax : List TokenId
  /-- Whether `draft_prob > 0 and target_prob / draft_prob >= uniform_prob`, for each draft. -/
  accepted : List Bool
  /-- What `sample_recovered_tokens` returns. -/
  recoveredTokenIds : List TokenId
  bonusTokenIds : List TokenId
  /-- `temperature == GREEDY_TEMPERATURE`. -/
  isGreedy : List Bool
  /-- `all_greedy` and `all_random` of the sampling metadata. -/
  allGreedy : Bool
  allRandom : Bool

namespace RejectionInputs

variable (x : RejectionInputs)

/-- The position of the first draft of a request. -/
def startIdx (reqIdx : Nat) : Except PyError Nat :=
  if reqIdx = 0 then .ok 0 else load x.cuNumDraftTokens (reqIdx - 1)

/-- The body of the loop of both kernels: `choose` gives the token for a draft, and whether the draft is
rejected. Nothing is stored after a rejection. -/
def samplePosition (choose : Nat → Except PyError (TokenId × Bool)) (reqIdx startIdx pos : Nat)
    (st : List Int × Bool) : Except PyError (List Int × Bool) :=
  if st.2 then .ok st
  else do
    let (tokenId, rejected) ← choose (startIdx + pos)
    let out ← store st.1 (reqIdx * (x.maxSpecLen + 1) + pos) (tokenId : Int)
    return (out, rejected)

/-- A program of both kernels: the drafts of the request, and the bonus token if none is rejected. -/
def sampleRequest (choose : Nat → Except PyError (TokenId × Bool)) (reqIdx : Nat) (out : List Int) :
    Except PyError (List Int) := do
  let startIdx ← x.startIdx reqIdx
  let endIdx ← load x.cuNumDraftTokens reqIdx
  let numDraftTokens := endIdx - startIdx
  let (out, rejected) ←
    threadM (x.samplePosition choose reqIdx startIdx) (List.range numDraftTokens) (out, false)
  if rejected then return out
  else do
    let bonusTokenId ← load x.bonusTokenIds reqIdx
    store out (reqIdx * (x.maxSpecLen + 1) + numDraftTokens) (bonusTokenId : Int)

/-- A draft is kept if it is the argmax, and the argmax is stored in any case. -/
def greedyChoice (i : Nat) : Except PyError (TokenId × Bool) := do
  let draftTokenId ← load x.draftTokenIds i
  let targetArgmaxId ← load x.targetArgmax i
  return (targetArgmaxId, draftTokenId ≠ targetArgmaxId)

/-- A draft is stored if it is accepted, and the recovered token if it is not. -/
def randomChoice (i : Nat) : Except PyError (TokenId × Bool) := do
  let draftTokenId ← load x.draftTokenIds i
  let accepted ← load x.accepted i
  if accepted then return (draftTokenId, false)
  else do
    let tokenId ← load x.recoveredTokenIds i
    return (tokenId, true)

/-- `rejection_greedy_sample_kernel`. Without `is_greedy_ptr` every request is greedy. -/
def rejectionGreedySampleKernel (isGreedyPtr : Option (List Bool)) (reqIdx : Nat) (out : List Int) :
    Except PyError (List Int) := do
  let isGreedy ← isGreedyPtr.elim (.ok true) fun l => load l reqIdx
  if isGreedy then x.sampleRequest x.greedyChoice reqIdx out else return out

/-- `rejection_random_sample_kernel`. -/
def rejectionRandomSampleKernel (isGreedyPtr : List Bool) (reqIdx : Nat) (out : List Int) :
    Except PyError (List Int) := do
  let isGreedy ← load isGreedyPtr reqIdx
  if isGreedy then return out else x.sampleRequest x.randomChoice reqIdx out

/-- The greedy requests, unless there are none. -/
def greedyPass (order : List Nat) (out : List Int) : Except PyError (List Int) :=
  if x.allRandom then .ok out
  else threadM (x.rejectionGreedySampleKernel (if x.allGreedy then none else some x.isGreedy)) order out

/-- The other requests. With greedy requests only, `rejection_sample` has returned before. -/
def randomPass (order : List Nat) (out : List Int) : Except PyError (List Int) :=
  if x.allGreedy && !x.allRandom then .ok out
  else threadM (x.rejectionRandomSampleKernel x.isGreedy) order out

/-- `rejection_sample`, with the orders in which the programs of the two kernels run. The buffer is
returned as its rows. -/
def rejectionSample (greedyOrder randomOrder : List Nat) : Except PyError (List (List Int)) := do
  let batchSize := x.numDraftTokens.length
  require (x.targetArgmax.length = x.draftTokenIds.length) (PyError.assertionError .rejectionSample)
  let outputTokenIds := List.replicate (batchSize * (x.maxSpecLen + 1)) placeholderTokenId
  let outputTokenIds ← x.greedyPass greedyOrder outputTokenIds
  let outputTokenIds ← x.randomPass randomOrder outputTokenIds
  return chunks (x.maxSpecLen + 1) outputTokenIds

end RejectionInputs

/-- `parse_output`. -/
def parseOutput (outputTokenIds : List (List Int)) (vocabSize : Nat) : List (List Int) :=
  outputTokenIds.map fun row => row.filter fun id => id ≠ placeholderTokenId ∧ id < vocabSize

end InferenceServer.SpecDecode
