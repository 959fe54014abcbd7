import OpenCodifier.Lib.OrdMap
import OpenCodifier.Lib.Recency
import OpenCodifier.Lib.Extremum
import OpenCodifier.Lib.Result
import OpenCodifier.Lib.Worklist
import OpenCodifier.Lib.Kahn
import OpenCodifier.Lib.Layering
import OpenCodifier.Lib.Waves
import OpenCodifier.Lib.Framing
import OpenCodifier.Lib.Base64
import OpenCodifier.Lib.Cyclic
import OpenCodifier.Lib.Json
import OpenCodifier.Lib.JsonPath
import OpenCodifier.Lib.JsonParts
import OpenCodifier.Lib.JsonOrder
import OpenCodifier.Lib.JsonOnce
import OpenCodifier.Lib.JsonStrings
import OpenCodifier.Lib.Strip
import OpenCodifier.Lib.Merging
import OpenCodifier.Lib.Live
import OpenCodifier.Lib.Loop
import OpenCodifier.Core.Error
import OpenCodifier.Core.Ids
import OpenCodifier.Core.Question
import OpenCodifier.Core.Policy
import OpenCodifier.Core.Answer
import OpenCodifier.Core.Response
import OpenCodifier.Core.Escalation
import OpenCodifier.Core.Request
import OpenCodifier.Engine.Error
import OpenCodifier.Engine.Lexical
import OpenCodifier.Engine.Rules
import OpenCodifier.Engine.Narrowing
import OpenCodifier.Engine.Graph
import OpenCodifier.Engine.GraphValid
import OpenCodifier.Engine.GraphLaw
import OpenCodifier.Engine.Merge
import OpenCodifier.Engine.Ladder
import OpenCodifier.Engine.Tempering
import OpenCodifier.Engine.Classifier
import OpenCodifier.Engine.Focus
import OpenCodifier.Engine.Rerank
import OpenCodifier.Engine.Decide
import OpenCodifier.Engine.RunState
import OpenCodifier.Engine.Nodes
import OpenCodifier.Engine.Walk
import OpenCodifier.Engine.Run
import OpenCodifier.Engine.History
import OpenCodifier.Engine.Effects
import OpenCodifier.Engine.Sample
import OpenCodifier.Engine.Knobs
import OpenCodifier.Engine.WalkLaw
import OpenCodifier.Engine.Facts
import OpenCodifier.Engine.Timestamp
import OpenCodifier.Engine.TimestampGrammar
import OpenCodifier.Engine.FactGrammar
import OpenCodifier.Engine.Relational
import OpenCodifier.Engine.RungPolicy
import OpenCodifier.Engine.Verdict
import OpenCodifier.Engine.Cache
import OpenCodifier.Engine.CacheRefinement
import OpenCodifier.Engine.KeyStream
import OpenCodifier.Engine.Handoff
import OpenCodifier.Engine.RuleLaw
import OpenCodifier.Engine.Pruning
import OpenCodifier.Engine.Prepared
import OpenCodifier.Engine.Engine
import OpenCodifier.Engine.Identity
import OpenCodifier.Engine.Gated
import OpenCodifier.Engine.Coherence
import OpenCodifier.Engine.Replay
import OpenCodifier.Engine.Rebuild
import OpenCodifier.Engine.Collapse
import OpenCodifier.Engine.Agree
import OpenCodifier.Engine.Skips
import OpenCodifier.Engine.Equivalence
import OpenCodifier.Engine.Schedule
import OpenCodifier.Engine.Levels
import OpenCodifier.Engine.ScoreWeights
import OpenCodifier.Engine.Serve
import OpenCodifier.Engine.Answered
import OpenCodifier.Schema.Error
import OpenCodifier.Schema.Codec
import OpenCodifier.Schema.StateSerde
import OpenCodifier.Schema.PolicySerde
import OpenCodifier.Schema.PolicyRecord
import OpenCodifier.Schema.RequestSerde
import OpenCodifier.Schema.ResponseSerde
import OpenCodifier.Schema.Native
import OpenCodifier.Schema.EscalationFit
import OpenCodifier.Schema.PolicyGates
import OpenCodifier.Engine.GraphDocument
import OpenCodifier.Engine.Ephemeral
import OpenCodifier.Engine.Interruption
import OpenCodifier.Engine.Sessions
import OpenCodifier.Engine.SafeMode
import OpenCodifier.Engine.Refusals
import OpenCodifier.Engine.Wire
import OpenCodifier.Mcp.Validate
import OpenCodifier.Schema.Optionals
import OpenCodifier.Schema.RequestOptionals
import OpenCodifier.Schema.ResponseOptionals
import OpenCodifier.Schema.Strict
import OpenCodifier.Schema.StrictSubset
import OpenCodifier.Schema.Jev
import OpenCodifier.Schema.JevOrder
import OpenCodifier.Schema.JevReport
import OpenCodifier.Schema.Replies
import OpenCodifier.Schema.JevResponse
import OpenCodifier.Schema.JevRoundTrip
import OpenCodifier.Schema.DataUrl
import OpenCodifier.Schema.OpenAi
import OpenCodifier.Schema.OpenAiResponse
import OpenCodifier.Schema.ChosenValues
import OpenCodifier.Schema.Envelopes
import OpenCodifier.Schema.OpenAiRoundTrip
import OpenCodifier.Schema.Anthropic
import OpenCodifier.Schema.AnthropicRoundTrip
import OpenCodifier.Schema.JevText
import OpenCodifier.Schema.Macjev
import OpenCodifier.Schema.DecisionSftPrep
import OpenCodifier.Schema.MacjevQuestions
import OpenCodifier.Schema.MacjevParity
import OpenCodifier.Schema.Registry
import OpenCodifier.Model.Error
import OpenCodifier.Model.Bpe
import OpenCodifier.Model.BpeReference
import OpenCodifier.Engine.LadderFit
import OpenCodifier.Engine.LadderProfile
import OpenCodifier.Engine.FocusLaw
import OpenCodifier.Engine.LexicalSpread
import OpenCodifier.Engine.LexicalOrder
import OpenCodifier.Engine.ClipLaw
import OpenCodifier.Engine.LadderDocument
import OpenCodifier.Http.Routes
import OpenCodifier.Http.Feedback
import OpenCodifier.Http.Chat
import OpenCodifier.Http.ChatProjection
import OpenCodifier.Http.ScoreOrder
import OpenCodifier.Http.GraphRoutes
import OpenCodifier.Mcp.Server
import OpenCodifier.Cli.FitSources
import OpenCodifier.Lib.Tally
import OpenCodifier.Lib.Batch
import OpenCodifier.Lib.Neighbours
import OpenCodifier.Engine.Operators
import OpenCodifier.Engine.Rotation
import OpenCodifier.Engine.RotationRanking
import OpenCodifier.Engine.RotationAnswer
import OpenCodifier.Engine.RotationExit
import OpenCodifier.Engine.Logistic
import OpenCodifier.Model.Embedding
import OpenCodifier.Model.Vision
import OpenCodifier.Model.Nesting
import OpenCodifier.Model.Tensor
import OpenCodifier.Model.Kai
import OpenCodifier.Model.KaiRows
import OpenCodifier.Model.KaiPrompt
import OpenCodifier.Model.KaiLaw
import OpenCodifier.Model.Julia
import OpenCodifier.Model.JuliaLaw
import OpenCodifier.Model.Onnx
import OpenCodifier.Model.OnnxRows
import OpenCodifier.Model.LlamaCpp
import OpenCodifier.Model.Nli
import OpenCodifier.Model.Replies
import OpenCodifier.Model.Identity
import OpenCodifier.Lib.Weyl
import OpenCodifier.Lib.Sampling
import OpenCodifier.Itemgen.Rng
import OpenCodifier.Itemgen.Render
import OpenCodifier.Itemgen.Sample
import OpenCodifier.Itemgen.Soundness
import OpenCodifier.Itemgen.RootCause
import OpenCodifier.Itemgen.Healthiest
import OpenCodifier.Itemgen.FirstRestored
import OpenCodifier.Itemgen.Kinds
import OpenCodifier.Itemgen.ScoreBoard
import OpenCodifier.Itemgen.Verify
import OpenCodifier.Itemgen.Pairs
import OpenCodifier.Itemgen.Mentions
import OpenCodifier.Itemgen.CorpusMerge
import OpenCodifier.Itemgen.SuiteGuard
import OpenCodifier.Itemgen.Generate
import OpenCodifier.Itemgen.Census
import OpenCodifier.Itemgen.TakePlan
import OpenCodifier.Itemgen.FamilyShares
import OpenCodifier.Itemgen.Merge
