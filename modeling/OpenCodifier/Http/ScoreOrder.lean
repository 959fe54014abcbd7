import OpenCodifier.Schema.JevOrder
import OpenCodifier.Schema.JevResponse
import OpenCodifier.Http.Routes
set_option autoImplicit false

namespace OpenCodifier

open Json

section Positions

namespace Jev

def answerAt (value : Value) (id : String) : Option Json := do
  let answers ← value.1.descend ⟨"answers", 0⟩
  answers.descend ⟨id, 0⟩

theorem answerAt_encodeResponse {r : DecisionResponse} {value : Value} {a : DecisionAnswer}
    (h : encodeResponse r = .ok value) (ha : a ∈ r.answers)
    (hd : (r.answers.map DecisionAnswer.questionId).Nodup) :
    answerAt value a.questionId.text = some (encodeAnswer a).2.1 := by
  cases h
  exact lookup_keyedFields encodeAnswer_fst hd ha

/-- The positions of a score answer refer to the labels: the distribution is over them in their
order, position i carries the probability of the i-th label, and the expected value weighs it by
i. -/
structure RefersTo (labels : List String) (d : Distribution) (expected : ℚ) (keyed : Json) :
    Prop where
  levels : d.entries.map DistributionEntry.key = labels
  carried : ∀ i label, labels[i]? = some label → ∃ p, d.probabilityOf label = some p ∧
    keyed.descend ⟨toString i, i⟩ = some (.num (.float p))
  weighed : expected =
    (labels.zipIdx.map fun e => (d.probabilityOf e.1).getD 0 * (e.2 : ℚ)).sum

/-- An encoded score answer refers to the labels its distribution is over. -/
theorem refersTo_iff {labels : List String} {d : Distribution} :
    RefersTo labels d (expectedValue d) (indexDistribution d).1 ↔
      d.entries.map DistributionEntry.key = labels := by
  constructor
  · exact RefersTo.levels
  · rintro rfl
    refine ⟨rfl, fun i label hlabel => ?_, ?_⟩
    · rw [List.getElem?_map] at hlabel
      obtain ⟨e, he, rfl⟩ := Option.map_eq_some_iff.mp hlabel
      exact ⟨e.probability, Distribution.probabilityOf_of_mem (List.mem_of_getElem? he),
        indexDistribution_descend he⟩
    · rw [expectedValue, List.zipIdx_map, List.map_map]
      refine congrArg List.sum (List.map_congr_left fun e he => ?_)
      have hmem : e.1 ∈ d.entries :=
        List.mem_of_getElem? (List.mem_zipIdx_iff_getElem?.mp he)
      simp [Distribution.probabilityOf_of_mem hmem]

end Jev

end Positions

namespace Http

open Jev

section Referring

variable [RustStd] [SerdeTexts] {engine : DecisionEngine} {asked : Set DecisionRequest}
  {moment : Moment} {document : Json}

/-- A reply to a document whose score answers refer to the criteria in document order exactly
where the labels ascend. -/
def RefersWhereAscending (engine : DecisionEngine) (document : Json) (moment : Moment)
    (value : Value) : Prop :=
  ∃ request response, Jev.decodeRequest (.parse document) {} = .ok request ∧
    (engine.decide request moment).2 = .ok response ∧
    ∀ id expected level d confidence,
      .score id expected level d confidence ∈ response.answers →
        ∃ labels keyed, criteriaLabels document id.text = some labels ∧
          answerAt value id.text = some keyed ∧
          (RefersTo labels d expected keyed ↔ labels.Pairwise (· < ·))

theorem refersWhereAscending (h : engine.ServesInOrder asked)
    (hasked : ∀ request, Jev.decodeRequest (.parse document) {} = .ok request → request ∈ asked)
    {value : Value}
    (hvalue : (decideDocument Jev.format engine (.parse document) moment).2 = .ok value) :
    RefersWhereAscending engine document moment value := by
  obtain ⟨request, response, hrequest, hresponse, hencoded⟩ := decideDocument_ok hvalue
  refine ⟨request, response, hrequest, hresponse, fun id expected level d confidence ha => ?_⟩
  have horder := h.answers (hasked request hrequest) hresponse
  obtain ⟨q, hq, hid, hlevels, rfl⟩ := horder.levels _ ha id expected level d confidence rfl
  subst hid
  obtain ⟨fields, hfields, hkeys⟩ := decodeRequest_levels hrequest hq
  have hanswer := answerAt_encodeResponse hencoded ha horder.distinct
  have hlevels : d.entries.map DistributionEntry.key =
      (normalizeFields fields OrdMap.empty).keys := hlevels.trans hkeys
  refine ⟨fields.map Prod.fst, (indexDistribution d).1, by rw [criteriaLabels, hfields]; rfl,
    hanswer, ?_⟩
  rw [refersTo_iff, hlevels]
  exact keys_normalizeFields_iff fields

/-- On both routes, after any requests served, the positions of a score answer refer to the
criteria in document order exactly where their labels ascend. -/
theorem routes_referTo_iff (ho : engine.LevelOrdered) (hk : engine.KeysIdentify asked)
    (hfresh : ∀ key, engine.cache.stored key = none) (calls : List (DecisionRequest × Moment))
    (hcalls : ∀ call ∈ calls, call.1 ∈ asked) (adapters : Adapters) (header : List UInt8)
    (hjev : formatName header = some "jev") :
    (∀ document moment value,
      (∀ request, Jev.decodeRequest (.parse document) {} = .ok request → request ∈ asked) →
      (decide adapters (engine.serve calls) (some header) (.ok document) moment).2 = .ok value →
        RefersWhereAscending (engine.serve calls) document moment value) ∧
    ∀ body moments value,
      (∀ items, body.member ⟨"requests", 0⟩ = some (.arr items) → ∀ item ∈ items, ∀ request,
        Jev.decodeRequest (.parse item) {} = .ok request → request ∈ asked) →
      (batch adapters (engine.serve calls) (some header) (.ok body) moments).2 = .ok value →
        ∃ items results, body.member ⟨"requests", 0⟩ = some (.arr items) ∧
          value.1.descend ⟨"results", 0⟩ = some (.arr results) ∧
          results.length = items.length ∧
          ∀ i item response, items[i]? = some item →
            results[i]? >>= descend ⟨"response", 0⟩ = some response.1 →
              RefersWhereAscending
                (batchItems Jev.format (engine.serve calls)
                  ((batchCalls items moments).take i)).1 item (moments i) response := by
  have hserves := (DecisionEngine.servesInOrder_of_fresh ho hk hfresh).serve hcalls
  have hformat := selectedFormat_jev adapters hjev
  constructor
  · intro document moment value hasked hvalue
    simp only [decide, hformat, parseJson] at hvalue
    exact refersWhereAscending hserves hasked hvalue
  · intro body moments value hasked hvalue
    obtain ⟨items, hitems, -, hresults⟩ := batch_ok hformat hvalue
    have hasked := hasked items hitems
    refine ⟨items, _, hitems, hresults, ?_, fun i item response hitem hresponse => ?_⟩
    · rw [List.length_map, batchItems_length, batchCalls, List.length_map, List.length_zipIdx]
    · have hcall : (batchCalls items moments)[i]? = some (.parse item, moments i) := by
        rw [batchCalls, List.getElem?_map, List.getElem?_zipIdx, hitem]
        simp
      rw [List.getElem?_map, batchItems_getElem?, hcall] at hresponse
      refine refersWhereAscending (batchItems_serves hserves fun call hc => ?_)
        (hasked item (List.mem_of_getElem? hitem)) (batchItem_response hresponse)
      obtain ⟨e, he, rfl⟩ := List.mem_map.mp (List.mem_of_mem_take hc)
      exact hasked e.1 (List.mem_of_getElem? (List.mem_zipIdx_iff_getElem?.mp he))

end Referring

section Samples

attribute [local instance] plainStd plainTexts

def firstAnswer : Classifier :=
  Classifier.ofDecide "first" fun _ question => ofCore (Distribution.fromPairs
    ((answerKeys question).zipIdx.map fun e => (e.1, if e.2 = 0 then 1 else 0)))

theorem firstAnswer_levelOrdered : firstAnswer.LevelOrdered := by
  refine Classifier.levelOrdered_ofDecide fun state q d h => ?_
  rw [ListsLevels, Distribution.fromPairs_keys (ofCore_ok h), List.map_map]
  exact (List.zipIdx_map_fst 0 (answerKeys (.score q))).trans rfl

def gradeEngine : DecisionEngine where
  config := {
    graph := Sample.graph [Sample.node "in" .normalize [], Sample.node "grade" .score ["in"],
      Sample.node "out" .output ["grade"]]
    rules := Sample.noRules }
  identity := ⟨1, "first", 0, "0.1.0", "none"⟩
  cache := ⟨.empty, .default, CacheConfig.default_maxEntries_pos, CacheConfig.default_ttl_pos⟩
  classifier := firstAnswer
  verifier := none
  fallbacks := []
  keyOf := fun _ _ => .ok 0
  serializedLen := fun _ => 0

def atOnce : Moment := ⟨0, 0, fun _ => .ok ()⟩

def noOthers : Adapters := ⟨Native.format, Native.format⟩

def gradeDocument (first second : String) : Json :=
  .obj [("state", .str "ticket"), ("model", .str "local"),
    ("questions", .obj [("difficulty", .obj [("type", .str "score"),
      ("instructions", .str "how hard is it"),
      ("criteria", .obj [(first, .str ""), (second, .str "")])])])]

def gradeReply (document : Json) : Option (DecisionRequest × DecisionResponse) := do
  let request ← (Jev.decodeRequest (.parse document) {}).toOption
  let response ← (gradeEngine.decide request atOnce).2.toOption
  some (request, response)

theorem gradeReply_some {document : Json} {reply : DecisionRequest × DecisionResponse}
    (h : gradeReply document = some reply) :
    Jev.decodeRequest (.parse document) {} = .ok reply.1 ∧
      (gradeEngine.decide reply.1 atOnce).2 = .ok reply.2 ∧
      (decide noOthers gradeEngine (some [106, 101, 118]) (.ok document) atOnce).2 =
        encodeReply Jev.format (.ok reply.2) := by
  obtain ⟨request, hrequest, h⟩ := Option.bind_eq_some_iff.mp h
  obtain ⟨response, hresponse, h⟩ := Option.bind_eq_some_iff.mp h
  cases h
  have hrequest := Result.toOption_eq_some.mp hrequest
  have hresponse := Result.toOption_eq_some.mp hresponse
  have hformat : selectedFormat noOthers (some [106, 101, 118]) = .ok Jev.format :=
    selectedFormat_jev _ (by decide)
  have hdecode : Jev.format.decodeRequest (.parse document) {} = .ok request := hrequest
  exact ⟨hrequest, hresponse, by simp [decide, hformat, parseJson, decideDocument, hdecode,
    hresponse]⟩

theorem gradeEngine_levelOrdered : gradeEngine.LevelOrdered :=
  ⟨firstAnswer_levelOrdered, fun _ hrung => absurd hrung List.not_mem_nil⟩

def readings (document : Json) : Set DecisionRequest :=
  {request | Jev.decodeRequest (.parse document) {} = .ok request}

theorem keysIdentify_readings (document : Json) :
    gradeEngine.KeysIdentify (readings document) := by
  intro r hr r' hr' _ _ _
  have hr : Jev.decodeRequest (.parse document) {} = .ok r := hr
  have hr' : Jev.decodeRequest (.parse document) {} = .ok r' := hr'
  have hsame : r = r' := Except.ok.inj (hr.symm.trans hr')
  rw [hsame]

def gradeBatch : Json := .obj [("requests", .arr [gradeDocument "easy" "hard"])]

/-- Both routes on a document whose labels ascend. -/
theorem routes_referTo_ascending :
    (∃ value, (decide noOthers gradeEngine (some [106, 101, 118])
        (.ok (gradeDocument "easy" "hard")) atOnce).2 = .ok value ∧
      RefersWhereAscending gradeEngine (gradeDocument "easy" "hard") atOnce value) ∧
    ∃ value results, (batch noOthers gradeEngine (some [106, 101, 118]) (.ok gradeBatch)
        fun _ => atOnce).2 = .ok value ∧
      value.1.descend ⟨"results", 0⟩ = some (.arr results) ∧ results.length = 1 ∧
      ∀ response, results[0]? >>= descend ⟨"response", 0⟩ = some response.1 →
        RefersWhereAscending gradeEngine (gradeDocument "easy" "hard") atOnce response := by
  have hfresh : ∀ key, gradeEngine.cache.stored key = none := fun _ => rfl
  have hroutes := routes_referTo_iff gradeEngine_levelOrdered
    (keysIdentify_readings (gradeDocument "easy" "hard")) hfresh []
    (fun _ hcall => absurd hcall List.not_mem_nil) noOthers [106, 101, 118] (by decide)
  constructor
  · obtain ⟨value, hvalue⟩ := Result.ok_of_isSome (by decide +kernel :
      (decide noOthers gradeEngine (some [106, 101, 118]) (.ok (gradeDocument "easy" "hard"))
        atOnce).2.toOption.isSome = true)
    exact ⟨value, hvalue, hroutes.1 _ _ _ (fun _ hrequest => hrequest) hvalue⟩
  · obtain ⟨value, hvalue⟩ := Result.ok_of_isSome (by decide +kernel :
      (batch noOthers gradeEngine (some [106, 101, 118]) (.ok gradeBatch)
        fun _ => atOnce).2.toOption.isSome = true)
    have hbody : gradeBatch.member ⟨"requests", 0⟩ =
      some (.arr [gradeDocument "easy" "hard"]) := rfl
    obtain ⟨items, results, hitems, hresults, hlength, hall⟩ :=
      hroutes.2 gradeBatch (fun _ => atOnce) value (fun items hitems item hitem request hrequest => by
        rw [hbody] at hitems
        cases hitems
        rwa [List.mem_singleton.mp hitem] at hrequest) hvalue
    rw [hbody] at hitems
    cases hitems
    exact ⟨value, results, hvalue, hresults, hlength, fun response hresponse =>
      hall 0 _ response rfl hresponse⟩

/-- The levels are sorted, so the first of them is easy. -/
def easyAnswer : DecisionAnswer :=
  .score (Sample.ident "difficulty") 0 "easy" (Sample.distribution [("easy", 1), ("hard", 0)]) 1

theorem gradeReply_answers :
    (gradeReply (gradeDocument "hard" "easy")).map (fun reply => reply.2.answers) =
      some [easyAnswer] := by
  decide +kernel

/-- The criteria list hard before easy. Position 0 of the reply carries the probability of easy,
and the expected value puts easy at 0. -/
theorem routes_referTo_descending :
    ∃ request response value, criteriaLabels (gradeDocument "hard" "easy") "difficulty" =
        some ["hard", "easy"] ∧
      Jev.decodeRequest (.parse (gradeDocument "hard" "easy")) {} = .ok request ∧
      (gradeEngine.decide request atOnce).2 = .ok response ∧
      (decide noOthers gradeEngine (some [106, 101, 118]) (.ok (gradeDocument "hard" "easy"))
        atOnce).2 = .ok value ∧
      ∃ id expected level d confidence keyed,
        .score id expected level d confidence ∈ response.answers ∧
        answerAt value "difficulty" = some keyed ∧
        d.probabilityOf "hard" = some 0 ∧
        keyed.descend ⟨"0", 0⟩ = some (.num (.float 1)) ∧
        expected = 0 ∧ ¬ RefersTo ["hard", "easy"] d expected keyed := by
  obtain ⟨⟨request, response⟩, hreply, hanswers⟩ :=
    Option.map_eq_some_iff.mp gradeReply_answers
  obtain ⟨hrequest, hresponse, hvalue⟩ := gradeReply_some hreply
  have hanswers : response.answers = [easyAnswer] := hanswers
  have hmem : easyAnswer ∈ response.answers := by
    rw [hanswers]
    exact List.mem_singleton.mpr rfl
  have hdistinct : (response.answers.map DecisionAnswer.questionId).Nodup := by
    rw [hanswers]
    exact List.nodup_singleton _
  have hfirst : (Sample.distribution [("easy", 1), ("hard", 0)]).entries[0]? =
      some ⟨"easy", 1⟩ := by
    decide +kernel
  have hlevels : (Sample.distribution [("easy", 1), ("hard", 0)]).entries.map
      DistributionEntry.key ≠ ["hard", "easy"] := by
    decide +kernel
  exact ⟨request, response, _, by decide +kernel, hrequest, hresponse, hvalue, _, _, _, _, _, _,
    hmem, answerAt_encodeResponse rfl hmem hdistinct, by decide +kernel,
    indexDistribution_descend hfirst, rfl, fun h => hlevels h.levels⟩

end Samples

end Http

end OpenCodifier
