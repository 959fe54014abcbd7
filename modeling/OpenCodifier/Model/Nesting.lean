import OpenCodifier.Engine.Logistic
import OpenCodifier.Engine.Relational
import OpenCodifier.Engine.Rotation
import OpenCodifier.Model.Embedding
import OpenCodifier.Model.Vision
set_option autoImplicit false

namespace OpenCodifier

/-- Backends whose ids determine what they answer. -/
structure Backends where
  embed : String → List String → Except String (List (List ℚ))
  embedImages : String → List ImageInput → Except String (List (List ℚ))
  embedTexts : String → List String → Except String (List (List ℚ))

inductive Leaf where
  | lexical
  | embedding (backend : String) (temperature : ℚ) (pos : 0 < temperature)
  | vision (embedder : String) (config : Siglip2Config) (template : PromptTemplate)

inductive Nesting where
  | leaf (leaf : Leaf)
  | relational (inner : Nesting)
  | rotation (inner : Nesting) (id : String) (combine : Combine) (earlyExit : Option EarlyExit)

namespace Leaf

/-- The settings that the id of a leaf leaves out. -/
def Agrees : Leaf → Leaf → Prop
  | lexical, lexical => True
  | embedding _ temperature _, embedding _ temperature' _ => temperature = temperature'
  | vision _ config _, vision _ config' _ => config = config'
  | _, _ => False

def modelId : Leaf → String
  | lexical => "builtin-lexical-v2"
  | embedding backend _ _ => backend
  | vision embedder _ template => embedder ++ ":siglip2-zero-shot:" ++ template.tag

def classifier [RustStd] (backends : Backends) : Leaf → Classifier
  | lexical => LexicalClassifier.classifier "builtin-lexical-v2"
  | embedding backend temperature pos =>
    EmbeddingClassifier.classifier ⟨⟨backend, backends.embed backend⟩, temperature, pos⟩
  | vision embedder config template =>
    VisionClassifier.classifier ⟨⟨embedder, backends.embedImages embedder,
      backends.embedTexts embedder⟩, config, template⟩

theorem agrees_refl (r : Leaf) : r.Agrees r := by cases r <;> simp [Agrees]

theorem visionId_injective {embedder embedder' : String} {template template' : PromptTemplate}
    (h : embedder ++ ":siglip2-zero-shot:" ++ template.tag =
      embedder' ++ ":siglip2-zero-shot:" ++ template'.tag) :
    embedder = embedder' ∧ template = template' := by
  have hlast : template = template' := by
    have hend := congrArg (fun s => s.toList.getLast?) h
    cases template <;> cases template' <;>
      first | rfl | simp [PromptTemplate.tag, String.toList_append] at hend
  subst hlast
  refine ⟨?_, rfl⟩
  have hchars := congrArg String.toList h
  simp only [String.toList_append, List.append_left_inj] at hchars
  exact String.toList_injective hchars

theorem eq_of_agrees {r r' : Leaf} (h : r.Agrees r') (hid : r.modelId = r'.modelId) : r = r' := by
  cases r with
  | lexical => cases r' <;> first | rfl | exact h.elim
  | embedding backend temperature pos =>
    cases r' with
    | embedding backend' temperature' pos' =>
      cases h
      cases hid
      rfl
    | _ => exact h.elim
  | vision embedder config template =>
    cases r' with
    | vision embedder' config' template' =>
      cases h
      obtain ⟨rfl, rfl⟩ := visionId_injective hid
      rfl
    | _ => exact h.elim

end Leaf

namespace Nesting

/-- The settings that the ids of a nesting leave out; the id of a rotation leaves out its whole
inner classifier. -/
def Agrees : Nesting → Nesting → Prop
  | leaf r, leaf r' => r.Agrees r'
  | relational inner, relational inner' => Agrees inner inner'
  | rotation inner _ combine earlyExit, rotation inner' _ combine' earlyExit' =>
    inner = inner' ∧ combine = combine' ∧ earlyExit = earlyExit'
  | _, _ => False

/-- The same wrappers with the same settings, over any leaves. -/
def SameWrappers : Nesting → Nesting → Prop
  | leaf _, leaf _ => True
  | relational inner, relational inner' => SameWrappers inner inner'
  | rotation inner id combine earlyExit, rotation inner' id' combine' earlyExit' =>
    id = id' ∧ combine = combine' ∧ earlyExit = earlyExit' ∧ SameWrappers inner inner'
  | _, _ => False

def Unrotated : Nesting → Prop
  | leaf _ => True
  | relational inner => Unrotated inner
  | rotation _ _ _ _ => False

def innermost : Nesting → Leaf
  | leaf r => r
  | relational inner => innermost inner
  | rotation inner _ _ _ => innermost inner

def modelId : Nesting → String
  | leaf r => r.modelId
  | relational inner => "relational-v2|" ++ modelId inner
  | rotation _ id _ _ => id

section Classifiers

variable [RustStd] (backends : Backends)

def classifier : Nesting → Classifier
  | leaf r => r.classifier backends
  | relational inner => RelationalSolver.classifier (classifier inner)
  | rotation inner id combine earlyExit =>
    RotationReadout.classifier ⟨classifier inner, combine, id, earlyExit⟩

theorem classifier_modelId (n : Nesting) : (n.classifier backends).modelId = n.modelId := by
  induction n with
  | leaf r => cases r <;> rfl
  | relational inner ih =>
    rw [classifier, modelId, ← ih]
    rfl
  | rotation inner id combine earlyExit ih => rfl

/-- Questions without candidates pass through every wrapper. -/
theorem decide_innermost (n : Nesting) (state : State) {question : DecisionQuestion}
    (h : ∀ choice, question ≠ .choice choice) :
    (n.classifier backends).decide state question =
      (n.innermost.classifier backends).decide state question := by
  induction n with
  | leaf r => rfl
  | relational inner ih =>
    rw [innermost, ← ih]
    cases question with
    | choice choice => exact absurd rfl (h choice)
    | boolean question => rfl
    | score question => rfl
  | rotation inner id combine earlyExit ih =>
    rw [innermost, ← ih]
    cases question with
    | choice choice => exact absurd rfl (h choice)
    | boolean question => rfl
    | score question => rfl

end Classifiers

theorem agrees_refl (n : Nesting) : n.Agrees n := by
  induction n with
  | leaf r => exact r.agrees_refl
  | relational inner ih => exact ih
  | rotation inner id combine earlyExit ih => exact ⟨rfl, rfl, rfl⟩

/-- An id and the settings that it leaves out make the nesting. -/
theorem eq_of_agrees {a b : Nesting} (h : a.Agrees b) (hid : a.modelId = b.modelId) : a = b := by
  induction a generalizing b with
  | leaf r =>
    cases b with
    | leaf r' => rw [Leaf.eq_of_agrees h hid]
    | _ => exact h.elim
  | relational inner ih =>
    cases b with
    | relational inner' =>
      have hinner : inner.modelId = inner'.modelId := by
        have hchars := congrArg String.toList hid
        simp only [modelId, String.toList_append, List.append_right_inj] at hchars
        exact String.toList_injective hchars
      rw [ih h hinner]
    | _ => exact h.elim
  | rotation inner id combine earlyExit ih =>
    cases b with
    | rotation inner' id' combine' earlyExit' =>
      obtain ⟨rfl, rfl, rfl⟩ := h
      cases hid
      rfl
    | _ => exact h.elim

theorem eq_of_sameWrappers {a b : Nesting} (h : a.SameWrappers b)
    (hleaf : a.innermost = b.innermost) : a = b := by
  induction a generalizing b with
  | leaf r =>
    cases b with
    | leaf r' => exact congrArg leaf hleaf
    | _ => exact h.elim
  | relational inner ih =>
    cases b with
    | relational inner' => exact congrArg relational (ih h hleaf)
    | _ => exact h.elim
  | rotation inner id combine earlyExit ih =>
    cases b with
    | rotation inner' id' combine' earlyExit' =>
      obtain ⟨rfl, rfl, rfl, hinner⟩ := h
      rw [ih hinner hleaf]
    | _ => exact h.elim

/-- How many solvers are around a leaf. -/
def depth : Nesting → Nat
  | leaf _ => 0
  | relational inner => depth inner + 1
  | rotation inner _ _ _ => depth inner

theorem modelId_length {n : Nesting} (h : n.Unrotated) :
    n.modelId.length = 14 * n.depth + n.innermost.modelId.length := by
  induction n with
  | leaf r => simp [modelId, depth, innermost]
  | relational inner ih =>
    rw [modelId, String.length_append, ih h, depth, innermost]
    have hprefix : "relational-v2|".length = 14 := by decide
    omega
  | rotation inner id combine earlyExit ih => exact h.elim

theorem sameWrappers_of_depth {a b : Nesting} (ha : a.Unrotated) (hb : b.Unrotated)
    (h : a.depth = b.depth) : a.SameWrappers b := by
  induction a generalizing b with
  | leaf r =>
    cases b with
    | leaf r' => trivial
    | relational inner' => simp [depth] at h
    | rotation => exact hb.elim
  | relational inner ih =>
    cases b with
    | leaf r' => simp [depth] at h
    | relational inner' => exact ih ha hb (Nat.add_right_cancel h)
    | rotation => exact hb.elim
  | rotation inner id combine earlyExit ih => exact ha.elim

theorem eq_of_unrotated {a b : Nesting} (ha : a.Unrotated) (hb : b.Unrotated)
    (hid : a.modelId = b.modelId) (hleaf : a.innermost = b.innermost) : a = b := by
  have hlength := congrArg String.length hid
  rw [modelId_length ha, modelId_length hb, hleaf] at hlength
  exact eq_of_sameWrappers (sameWrappers_of_depth ha hb (by omega)) hleaf

end Nesting

end OpenCodifier
