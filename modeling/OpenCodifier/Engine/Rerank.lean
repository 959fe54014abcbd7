import OpenCodifier.Engine.Narrowing
import OpenCodifier.Core.Response
set_option autoImplicit false

namespace OpenCodifier

/-- An embedding service: one vector per text, or an error text. -/
structure EmbeddingBackend where
  modelId : String
  embed : List String → Except String (List (List ℚ))

section Cosine

variable [RustStd]

def dot (left right : List ℚ) : ℚ := ((left.zip right).map fun e => e.1 * e.2).sum

/-- Cosine similarity, zero when a vector has no magnitude. -/
def cosine (left right : List ℚ) : ℚ :=
  if left.length ≠ right.length then 0
  else if dot left left = 0 ∨ dot right right = 0 then 0
  else dot left right / (RustStd.sqrt (dot left left) * RustStd.sqrt (dot right right))

end Cosine

structure ScoredCandidate where
  candidate : Candidate
  score : ℚ
  deriving DecidableEq

def scoredOrder (left right : ScoredCandidate) : Prop :=
  right.score < left.score ∨ (left.score = right.score ∧ left.candidate.id ≤ right.candidate.id)

instance : DecidableRel scoredOrder := fun _ _ => inferInstanceAs (Decidable (_ ∨ _))

/-- A second opinion on ordering: the same candidates, scored, best first. -/
structure Reranker where
  modelId : String
  rerank : String → List Candidate → EngineResult (List ScoredCandidate)

def scoreCandidates (candidates : List Candidate) (scores : List ℚ) : List ScoredCandidate :=
  (candidates.zipWith (fun c s => ⟨c, s⟩) scores).insertionSort scoredOrder

def lexicalReranker [RustStd] : Reranker where
  modelId := "builtin-lexical-v1"
  rerank := fun query candidates =>
    let index := Lexical.Bm25Index.new (candidates.map Candidate.description)
    .ok (scoreCandidates candidates (index.scoreAll query))

/-- Embed a query and its documents in one call: one vector for each text, the
query's first, or the backend's failure. -/
def embedTexts (backend : EmbeddingBackend) (query : String) (documents : List String) :
    EngineResult (List ℚ × List (List ℚ)) :=
  match backend.embed (query :: documents) with
  | .error reason => .error (.backendFailed backend.modelId reason)
  | .ok vectors =>
    match vectors with
    | first :: rest =>
      if rest.length = documents.length then .ok (first, rest)
      else .error (wrongCount backend vectors documents)
    | [] => .error (wrongCount backend vectors documents)
where
  wrongCount (backend : EmbeddingBackend) (vectors : List (List ℚ)) (documents : List String) :
      EngineError :=
    .backendFailed backend.modelId ("backend returned " ++ toString vectors.length
      ++ " vectors for " ++ toString (documents.length + 1) ++ " texts")

def embeddingReranker [RustStd] (backend : EmbeddingBackend) : Reranker where
  modelId := backend.modelId
  rerank := fun query candidates => do
    let vectors ← embedTexts backend query (candidates.map Candidate.description)
    pure (scoreCandidates candidates (vectors.2.map (cosine vectors.1)))

end OpenCodifier
