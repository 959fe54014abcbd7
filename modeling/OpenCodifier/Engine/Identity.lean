import OpenCodifier.Lib.Framing
import OpenCodifier.Engine.Engine
import OpenCodifier.Engine.Sample
set_option autoImplicit false

namespace OpenCodifier

structure RungIdentity where
  modelId : String
  modality : RungModality
  calibrationVersion : Option Nat
  deriving DecidableEq

/-- What the model component of a cache key has to tell apart; an empty ladder is no ladder. -/
structure ModelIdentity where
  base : String
  focus : Option Nat
  ladder : Option String
  rungs : List RungIdentity
  deriving DecidableEq

namespace Rung

def calibrationVersion (rung : Rung) : Option Nat := rung.calibration.map Calibration.version

def identity (rung : Rung) : RungIdentity :=
  ⟨rung.classifier.modelId, rung.modality, rung.calibrationVersion⟩

/-- An absent calibration is written as version 0. -/
def signature (rung : Rung) : String :=
  rung.classifier.modelId ++ (if rung.modality.isImage then ":image" else "") ++ "@" ++
    toString (rung.calibrationVersion.getD 0)

def listText (rungs : List Rung) : String := "+".intercalate (rungs.map signature)

theorem listText_ends (rungs : List Rung) (h : rungs ≠ []) :
    ∃ model version, listText rungs = model ++ "@" ++ toString (version : Nat) := by
  induction rungs with
  | nil => exact absurd rfl h
  | cons r rest ih =>
    cases rest with
    | nil => exact ⟨_, _, String.intercalate_singleton⟩
    | cons r' rest =>
      obtain ⟨model, version, hm⟩ := ih (List.cons_ne_nil _ _)
      refine ⟨r.signature ++ "+" ++ model, version, ?_⟩
      unfold listText at hm ⊢
      rw [List.map_cons, List.map_cons, String.intercalate_cons_cons, ← List.map_cons, hm]
      simp only [String.append_assoc]

/-- The id can be told from the marks a signature puts after it. -/
def Separated (rung : Rung) : Prop :=
  '@' ∉ rung.classifier.modelId.toList ∧
    ∀ model, rung.classifier.modelId.toList ≠ model ++ ":image".toList

def written (rung : Rung) : RungIdentity :=
  { rung.identity with calibrationVersion := some (rung.calibrationVersion.getD 0) }

def marked (rung : Rung) : List Char :=
  rung.classifier.modelId.toList ++ (if rung.modality.isImage then ":image".toList else [])

theorem signature_toList (rung : Rung) :
    rung.signature.toList =
      rung.marked ++ '@' :: (rung.calibrationVersion.getD 0).repr.toList := by
  unfold signature marked
  split <;> simp

theorem marked_inj {rung rung' : Rung} (h : rung.Separated) (h' : rung'.Separated)
    (heq : rung.marked = rung'.marked) :
    rung.classifier.modelId = rung'.classifier.modelId ∧ rung.modality = rung'.modality := by
  unfold marked at heq
  cases hm : rung.modality <;> cases hm' : rung'.modality <;>
    simp only [hm, hm', RungModality.isImage, if_true, Bool.false_eq_true, if_false,
      List.append_nil] at heq
  · exact ⟨String.toList_inj.mp heq, rfl⟩
  · exact absurd heq (h.2 _)
  · exact absurd heq.symm (h'.2 _)
  · exact ⟨String.toList_inj.mp (List.append_cancel_right heq), rfl⟩

theorem at_not_mem_marked {rung : Rung} (h : rung.Separated) : '@' ∉ rung.marked := by
  intro hm
  rcases List.mem_append.mp hm with hm | hm
  · exact h.1 hm
  · split at hm
    · exact absurd hm (by decide)
    · cases hm

/-- A signature of a separated id is read off the front of its list. -/
theorem signature_append_inj {rung rung' : Rung} (h : rung.Separated) (h' : rung'.Separated)
    {tail tail' : List Char} (ht : ∀ c ∈ tail.head?, c = '+') (ht' : ∀ c ∈ tail'.head?, c = '+')
    (heq : rung.signature.toList ++ tail = rung'.signature.toList ++ tail') :
    rung.written = rung'.written ∧ tail = tail' := by
  have hplus : ∀ {l : List Char}, (∀ c ∈ l.head?, c = '+') → ∀ c ∈ l.head?, ¬ c.isDigit := by
    intro l hl c hc
    rw [hl c hc]
    decide
  rw [signature_toList, signature_toList, List.append_assoc, List.append_assoc] at heq
  obtain ⟨hmarked, hrest⟩ := Framing.append_inj_of_delimited (fun c => c = '@')
    (Framing.not_mem_of_forall_ne (at_not_mem_marked h))
    (Framing.not_mem_of_forall_ne (at_not_mem_marked h')) (by simp) (by simp) heq
  obtain ⟨hmodel, hmodality⟩ := marked_inj h h' hmarked
  obtain ⟨hversion, htail⟩ :=
    Framing.repr_append_inj (hplus ht) (hplus ht') (List.cons.inj hrest).2
  refine ⟨?_, htail⟩
  simp [written, identity, hmodel, hmodality, hversion]

def tailText (rungs : List Rung) : List Char := rungs.flatMap fun r => '+' :: r.signature.toList

theorem listText_cons (rung : Rung) (rungs : List Rung) :
    (listText (rung :: rungs)).toList = rung.signature.toList ++ tailText rungs := by
  induction rungs generalizing rung with
  | nil => simp [listText, tailText]
  | cons r rungs ih =>
    have hcons : listText (rung :: r :: rungs) = rung.signature ++ "+" ++ listText (r :: rungs) :=
      String.intercalate_cons_cons
    rw [hcons, String.toList_append, String.toList_append, ih]
    simp [tailText]

theorem tailText_head (rungs : List Rung) : ∀ c ∈ (tailText rungs).head?, c = '+' := by
  cases rungs with
  | nil => simp [tailText]
  | cons r rungs => simp [tailText]

theorem tailText_inj {rungs rungs' : List Rung} (h : ∀ r ∈ rungs, r.Separated)
    (h' : ∀ r ∈ rungs', r.Separated) (heq : tailText rungs = tailText rungs') :
    rungs.map written = rungs'.map written := by
  induction rungs generalizing rungs' with
  | nil =>
    cases rungs' with
    | nil => rfl
    | cons r rungs' => simp [tailText] at heq
  | cons r rungs ih =>
    cases rungs' with
    | nil => simp [tailText] at heq
    | cons r' rungs' =>
      have hcons : r.signature.toList ++ tailText rungs =
          r'.signature.toList ++ tailText rungs' := by
        simpa [tailText] using heq
      obtain ⟨hr, htail⟩ := signature_append_inj (h r List.mem_cons_self)
        (h' r' List.mem_cons_self) (tailText_head _) (tailText_head _) hcons
      rw [List.map_cons, List.map_cons, hr, ih (fun x hx => h x (List.mem_cons_of_mem _ hx))
        (fun x hx => h' x (List.mem_cons_of_mem _ hx)) htail]

theorem listText_inj {rungs rungs' : List Rung} (hne : rungs ≠ []) (hne' : rungs' ≠ [])
    (h : ∀ r ∈ rungs, r.Separated) (h' : ∀ r ∈ rungs', r.Separated)
    (heq : listText rungs = listText rungs') : rungs.map written = rungs'.map written := by
  obtain ⟨r, rest, rfl⟩ := List.exists_cons_of_ne_nil hne
  obtain ⟨r', rest', rfl⟩ := List.exists_cons_of_ne_nil hne'
  have hchars := congrArg String.toList heq
  rw [listText_cons, listText_cons] at hchars
  exact tailText_inj h h' (by simpa [tailText] using hchars)

theorem listText_congr {rungs rungs' : List Rung} (h : rungs.map written = rungs'.map written) :
    listText rungs = listText rungs' := by
  have hsig : ∀ r r' : Rung, r.written = r'.written → r.signature = r'.signature := by
    intro r r' hw
    obtain ⟨hmodel, hmodality, hversion⟩ := RungIdentity.mk.inj hw
    unfold signature
    have hid : r.classifier.modelId = r'.classifier.modelId := hmodel
    have hkind : r.modality = r'.modality := hmodality
    rw [hid, hkind, Option.some.inj hversion]
  have hmap : rungs.map signature = rungs'.map signature := by
    induction rungs generalizing rungs' with
    | nil =>
      cases rungs' with
      | nil => rfl
      | cons r' rungs' => cases h
    | cons r rungs ih =>
      cases rungs' with
      | nil => cases h
      | cons r' rungs' =>
        obtain ⟨hr, hrest⟩ := List.cons.inj h
        rw [List.map_cons, List.map_cons, hsig r r' hr, ih hrest]
  rw [listText, listText, hmap]

end Rung

section Assemblies

variable [RustStd]

structure Assembly where
  config : EngineConfig
  classifier : Classifier
  fallbacks : List Rung
  ladder_valid : config.ladder.validate = .ok ()

namespace Assembly

def focused (a : Assembly) : String :=
  match a.config.focus with
  | some policy => a.classifier.modelId ++ "|focused-v1@" ++ toString policy.budgetTokens
  | none => a.classifier.modelId

def laddered (a : Assembly) : String :=
  if !a.config.ladder.isEmpty then a.focused ++ "|ladder-v1@" ++ a.config.ladder.id
  else a.focused

def decoratedModelId (a : Assembly) : String :=
  if !a.fallbacks.isEmpty then
    a.laddered ++ "|rungs-v1@" ++ "+".intercalate (a.fallbacks.map Rung.signature)
  else a.laddered

def identity (a : Assembly) (given : EngineIdentity) : EngineIdentity :=
  { given with
    modelId := a.decoratedModelId
    embeddingModel := (a.config.embedding.map EmbeddingBackend.modelId).getD "none" }

def modelIdentity (a : Assembly) : ModelIdentity where
  base := a.classifier.modelId
  focus := a.config.focus.map FocusPolicy.budgetTokens
  ladder := if a.config.ladder.isEmpty then none else some a.config.ladder.id
  rungs := a.fallbacks.map Rung.identity

/-- The classifier's own id is the whole model id. -/
def Undecorated (a : Assembly) : Prop :=
  a.config.focus = none ∧ a.config.ladder.isEmpty = true ∧ a.fallbacks = []

/-- The same assembly around a classifier of another id, with nothing that decorates it. -/
def bare (a : Assembly) (modelId : String) : Assembly where
  config := { a.config with focus := none, ladder := { id := "none" } }
  classifier := { a.classifier with modelId := modelId }
  fallbacks := []
  ladder_valid := rfl

section Marks

def focusMark (a : Assembly) : String :=
  (a.config.focus.map fun policy => "|focused-v1@" ++ toString policy.budgetTokens).getD ""

def ladderMark (a : Assembly) : String :=
  if a.config.ladder.isEmpty then "" else "|ladder-v1@" ++ a.config.ladder.id

def rungsMark (a : Assembly) : String :=
  if a.fallbacks.isEmpty then "" else "|rungs-v1@" ++ Rung.listText a.fallbacks

theorem decoratedModelId_eq (a : Assembly) :
    a.decoratedModelId =
      a.classifier.modelId ++ (a.focusMark ++ (a.ladderMark ++ a.rungsMark)) := by
  have hf : a.focused = a.classifier.modelId ++ a.focusMark := by
    unfold focused focusMark
    cases a.config.focus with
    | none => simp
    | some policy => simp [String.append_assoc]
  have hl : a.laddered = a.focused ++ a.ladderMark := by
    unfold laddered ladderMark
    cases a.config.ladder.isEmpty <;> simp [String.append_assoc]
  have hr : a.decoratedModelId = a.laddered ++ a.rungsMark := by
    unfold decoratedModelId rungsMark Rung.listText
    cases a.fallbacks.isEmpty <;> simp [String.append_assoc]
  rw [hr, hl, hf, String.append_assoc, String.append_assoc]

end Marks

section Unshared

/-- The id ends as a decoration does. -/
def EndsInMark (modelId : String) : Prop :=
  ∃ front,
    (∃ budget : Nat, modelId = front ++ ("|focused-v1@" ++ toString budget)) ∨
    (∃ id, id ≠ "" ∧ id ≠ "none" ∧ modelId = front ++ ("|ladder-v1@" ++ id)) ∨
    ∃ model, ∃ version : Nat,
      modelId = front ++ ("|rungs-v1@" ++ (model ++ "@" ++ toString version))

theorem undecorated_iff (a : Assembly) :
    a.Undecorated ↔ a.modelIdentity = ⟨a.classifier.modelId, none, none, []⟩ := by
  simp [Undecorated, modelIdentity]

theorem undecorated_decoratedModelId {a : Assembly} (h : a.Undecorated) :
    a.decoratedModelId = a.classifier.modelId := by
  obtain ⟨hf, hl, hr⟩ := h
  simp [decoratedModelId_eq, focusMark, ladderMark, rungsMark, hf, hl, hr]

theorem bare_undecorated (a : Assembly) (modelId : String) : (a.bare modelId).Undecorated :=
  ⟨rfl, rfl, rfl⟩

theorem validate_ladder {a : Assembly} (h : a.config.ladder.isEmpty = false) :
    a.config.ladder.id ≠ "" ∧ a.config.ladder.id ≠ "none" := by
  have hv := a.ladder_valid
  unfold LadderPolicy.validate at hv
  split at hv
  · cases hv
  · rename_i hc
    simpa [h] using hc

theorem shared_of_decorated {a : Assembly} (h : ¬ a.Undecorated) :
    ∃ a' : Assembly, a'.modelIdentity ≠ a.modelIdentity ∧
      a'.decoratedModelId = a.decoratedModelId := by
  refine ⟨a.bare a.decoratedModelId, ?_, undecorated_decoratedModelId (bare_undecorated _ _)⟩
  intro he
  have hu := (undecorated_iff _).mp (bare_undecorated a a.decoratedModelId)
  rw [he] at hu
  have hbase : a.modelIdentity.base = (a.bare a.decoratedModelId).classifier.modelId := by rw [hu]
  rw [← hbase] at hu
  exact h ((undecorated_iff a).mpr hu)

theorem shared_of_endsInMark {a : Assembly} (h : a.Undecorated)
    (he : EndsInMark a.classifier.modelId) :
    ∃ a' : Assembly, a'.modelIdentity ≠ a.modelIdentity ∧
      a'.decoratedModelId = a.decoratedModelId := by
  rw [undecorated_decoratedModelId h, (undecorated_iff a).mp h]
  obtain ⟨front, ⟨budget, hb⟩ | ⟨id, hid, hnone, hb⟩ | ⟨model, version, hb⟩⟩ := he
  · refine ⟨{ a.bare front with
      config := { (a.bare front).config with focus := some ⟨budget⟩ } }, ?_, ?_⟩
    · simp [modelIdentity]
    · rw [decoratedModelId_eq, hb]
      simp [focusMark, ladderMark, rungsMark, bare, LadderPolicy.isEmpty, OrdMap.keys, OrdMap.empty]
  · refine ⟨{ a.bare front with
      config := { (a.bare front).config with
        ladder := { id := id, calibrations := OrdMap.empty.insert "kind:choice" identityCalibration } }
      ladder_valid := ?_ }, ?_, ?_⟩
    · simp [LadderPolicy.validate, hid, hnone, OrdMap.keys, OrdMap.empty, pure, Except.pure]
    · simp [modelIdentity, LadderPolicy.isEmpty, OrdMap.keys, OrdMap.empty, OrdMap.insert,
        insertSorted]
    · rw [decoratedModelId_eq, hb]
      simp [focusMark, ladderMark, rungsMark, bare, LadderPolicy.isEmpty, OrdMap.keys,
        OrdMap.empty, OrdMap.insert, insertSorted]
  · refine ⟨{ a.bare front with
      fallbacks := [{ classifier := { a.classifier with modelId := model }
                      calibration := some { identityCalibration with version := version } }] },
      ?_, ?_⟩
    · simp [modelIdentity]
    · rw [decoratedModelId_eq, hb]
      simp [focusMark, ladderMark, rungsMark, bare, LadderPolicy.isEmpty, OrdMap.keys,
        OrdMap.empty, Rung.listText, Rung.signature, Rung.calibrationVersion, RungModality.isImage,
        String.append_assoc]

theorem endsInMark_of_decorated {a : Assembly} (h : ¬ a.Undecorated) :
    EndsInMark a.decoratedModelId := by
  rw [decoratedModelId_eq]
  cases hr : a.fallbacks with
  | cons r rest =>
    obtain ⟨model, version, hm⟩ := Rung.listText_ends (r :: rest) (List.cons_ne_nil _ _)
    refine ⟨a.classifier.modelId ++ (a.focusMark ++ a.ladderMark), Or.inr (Or.inr
      ⟨model, version, ?_⟩)⟩
    rw [rungsMark, hr, hm]
    simp [String.append_assoc]
  | nil =>
    cases hl : a.config.ladder.isEmpty with
    | false =>
      obtain ⟨hid, hnone⟩ := validate_ladder hl
      refine ⟨a.classifier.modelId ++ a.focusMark, Or.inr (Or.inl ⟨_, hid, hnone, ?_⟩)⟩
      simp [rungsMark, hr, ladderMark, hl, String.append_assoc]
    | true =>
      cases hf : a.config.focus with
      | some policy =>
        refine ⟨a.classifier.modelId, Or.inl ⟨policy.budgetTokens, ?_⟩⟩
        simp [rungsMark, hr, ladderMark, hl, focusMark, hf]
      | none => exact absurd ⟨hf, hl, hr⟩ h

theorem unshared_iff (a : Assembly) :
    (∀ a' : Assembly, a'.modelIdentity ≠ a.modelIdentity →
        a'.decoratedModelId ≠ a.decoratedModelId) ↔
      a.Undecorated ∧ ¬ EndsInMark a.classifier.modelId := by
  constructor
  · intro h
    have hu : a.Undecorated := by
      by_contra hd
      obtain ⟨a', hne, he⟩ := shared_of_decorated hd
      exact h a' hne he
    refine ⟨hu, fun hm => ?_⟩
    obtain ⟨a', hne, he⟩ := shared_of_endsInMark hu hm
    exact h a' hne he
  · intro h a' hne he
    obtain ⟨hu, hm⟩ := h
    rw [undecorated_decoratedModelId hu] at he
    by_cases hu' : a'.Undecorated
    · rw [undecorated_decoratedModelId hu'] at he
      rw [(undecorated_iff a).mp hu, (undecorated_iff a').mp hu', he] at hne
      exact hne rfl
    · exact hm (he ▸ endsInMark_of_decorated hu')

end Unshared

section Separated

/-- No id of the assembly holds the mark that would follow it. -/
def Separated (a : Assembly) : Prop :=
  '|' ∉ a.classifier.modelId.toList ∧
    (a.config.ladder.isEmpty = false → '|' ∉ a.config.ladder.id.toList) ∧
    ∀ rung ∈ a.fallbacks, rung.Separated

def written (a : Assembly) : ModelIdentity :=
  { a.modelIdentity with rungs := a.fallbacks.map Rung.written }

variable {a a' : Assembly}

theorem focusMark_head (a : Assembly) : ∀ c ∈ a.focusMark.toList.head?, c = '|' := by
  unfold focusMark
  cases a.config.focus <;> simp

theorem ladderMark_head (a : Assembly) : ∀ c ∈ a.ladderMark.toList.head?, c = '|' := by
  unfold ladderMark
  split <;> simp

theorem rungsMark_head (a : Assembly) : ∀ c ∈ a.rungsMark.toList.head?, c = '|' := by
  unfold rungsMark
  split <;> simp

theorem ladderMark_second (a : Assembly) :
    (a.ladderMark.toList ++ a.rungsMark.toList)[1]? ≠ some 'f' := by
  unfold ladderMark rungsMark
  split <;> split <;> simp

theorem rungsMark_second (a : Assembly) : a.rungsMark.toList[1]? ≠ some 'l' := by
  unfold rungsMark
  split <;> simp

omit [RustStd] in
theorem bar_not_digit {l : List Char} (h : ∀ c ∈ l.head?, c = '|') :
    ∀ c ∈ l.head?, ¬ c.isDigit := by
  intro c hc
  rw [h c hc]
  decide

theorem focusMark_split
    (h : a.focusMark.toList ++ (a.ladderMark.toList ++ a.rungsMark.toList) =
      a'.focusMark.toList ++ (a'.ladderMark.toList ++ a'.rungsMark.toList)) :
    a.config.focus = a'.config.focus ∧
      a.ladderMark.toList ++ a.rungsMark.toList =
        a'.ladderMark.toList ++ a'.rungsMark.toList := by
  have htail := Framing.head?_append_delimiter (ladderMark_head a) (rungsMark_head a)
  have htail' := Framing.head?_append_delimiter (ladderMark_head a') (rungsMark_head a')
  unfold focusMark at h
  cases hf : a.config.focus with
  | none =>
    cases hf' : a'.config.focus with
    | none => exact ⟨rfl, by simpa [hf, hf'] using h⟩
    | some policy =>
      refine absurd ?_ (ladderMark_second a)
      simp only [hf, hf', Option.map_none, Option.map_some, Option.getD_none, Option.getD_some,
        String.toList_empty, List.nil_append] at h
      rw [h]
      simp
  | some policy =>
    cases hf' : a'.config.focus with
    | none =>
      refine absurd ?_ (ladderMark_second a')
      simp only [hf, hf', Option.map_none, Option.map_some, Option.getD_none, Option.getD_some,
        String.toList_empty, List.nil_append] at h
      rw [← h]
      simp
    | some policy' =>
      have hdigits : policy.budgetTokens.repr.toList ++
            (a.ladderMark.toList ++ a.rungsMark.toList) =
          policy'.budgetTokens.repr.toList ++
            (a'.ladderMark.toList ++ a'.rungsMark.toList) := by
        simpa [hf, hf'] using h
      obtain ⟨hb, hrest⟩ :=
        Framing.repr_append_inj (bar_not_digit htail) (bar_not_digit htail') hdigits
      obtain ⟨budget⟩ := policy
      obtain ⟨budget'⟩ := policy'
      exact ⟨congrArg (fun b => some (FocusPolicy.mk b)) hb, hrest⟩

theorem ladderMark_split (hs : a.Separated) (hs' : a'.Separated)
    (h : a.ladderMark.toList ++ a.rungsMark.toList =
      a'.ladderMark.toList ++ a'.rungsMark.toList) :
    a.modelIdentity.ladder = a'.modelIdentity.ladder ∧
      a.rungsMark.toList = a'.rungsMark.toList := by
  unfold ladderMark at h
  unfold modelIdentity
  cases hl : a.config.ladder.isEmpty with
  | true =>
    cases hl' : a'.config.ladder.isEmpty with
    | true => exact ⟨rfl, by simpa [hl, hl'] using h⟩
    | false =>
      refine absurd ?_ (rungsMark_second a)
      simp only [hl, hl', if_true, Bool.false_eq_true, if_false, String.toList_empty,
        List.nil_append] at h
      rw [h]
      simp
  | false =>
    cases hl' : a'.config.ladder.isEmpty with
    | true =>
      refine absurd ?_ (rungsMark_second a')
      simp only [hl, hl', if_true, Bool.false_eq_true, if_false, String.toList_empty,
        List.nil_append] at h
      rw [← h]
      simp
    | false =>
      have hids : a.config.ladder.id.toList ++ a.rungsMark.toList =
          a'.config.ladder.id.toList ++ a'.rungsMark.toList := by
        simpa [hl, hl'] using h
      obtain ⟨hid, hrest⟩ := Framing.append_inj_of_delimited (fun c => c = '|')
        (Framing.not_mem_of_forall_ne (hs.2.1 hl)) (Framing.not_mem_of_forall_ne (hs'.2.1 hl'))
        (rungsMark_head a) (rungsMark_head a') hids
      simpa [String.toList_inj.mp hid] using hrest

theorem rungsMark_inj (hs : a.Separated) (hs' : a'.Separated)
    (h : a.rungsMark.toList = a'.rungsMark.toList) :
    a.fallbacks.map Rung.written = a'.fallbacks.map Rung.written := by
  have htext := String.toList_inj.mp h
  unfold rungsMark at htext
  cases hr : a.fallbacks with
  | nil =>
    cases hr' : a'.fallbacks with
    | nil => rfl
    | cons r' rest' => simp [hr, hr'] at htext
  | cons r rest =>
    cases hr' : a'.fallbacks with
    | nil => simp [hr, hr'] at htext
    | cons r' rest' =>
      rw [← hr, ← hr']
      refine Rung.listText_inj (by simp [hr]) (by simp [hr']) hs.2.2 hs'.2.2 ?_
      simpa [hr, hr'] using htext

theorem decoratedModelId_congr (h : a.written = a'.written) :
    a.decoratedModelId = a'.decoratedModelId := by
  obtain ⟨hbase, hfocus, hladder, hrungs⟩ := ModelIdentity.mk.inj h
  have hf : a.focusMark = a'.focusMark := by
    unfold focusMark
    simpa [modelIdentity, Option.map_map, Function.comp_def] using
      congrArg (fun o => (o.map fun n : Nat => "|focused-v1@" ++ toString n).getD "") hfocus
  have hl : a.ladderMark = a'.ladderMark := by
    unfold ladderMark
    simp only [modelIdentity] at hladder
    cases hi : a.config.ladder.isEmpty <;> cases hi' : a'.config.ladder.isEmpty <;>
      simp_all
  have hr : a.rungsMark = a'.rungsMark := by
    have hempty : a.fallbacks.isEmpty = a'.fallbacks.isEmpty := by
      have hlen := congrArg List.isEmpty hrungs
      simpa using hlen
    rw [rungsMark, rungsMark, hempty, Rung.listText_congr hrungs]
  rw [decoratedModelId_eq, decoratedModelId_eq, hf, hl, hr,
    show a.classifier.modelId = a'.classifier.modelId from hbase]

/-- Between assemblies whose ids keep clear of the marks, the decorated id tells apart all that
it writes. -/
theorem decoratedModelId_eq_iff (hs : a.Separated) (hs' : a'.Separated) :
    a.decoratedModelId = a'.decoratedModelId ↔ a.written = a'.written := by
  constructor
  · intro h
    have hchars := congrArg String.toList h
    rw [decoratedModelId_eq, decoratedModelId_eq] at hchars
    simp only [String.toList_append] at hchars
    have htail (b : Assembly) := Framing.head?_append_delimiter (focusMark_head b)
      (Framing.head?_append_delimiter (ladderMark_head b) (rungsMark_head b))
    obtain ⟨hbase, hrest⟩ := Framing.append_inj_of_delimited (fun c => c = '|')
      (Framing.not_mem_of_forall_ne hs.1) (Framing.not_mem_of_forall_ne hs'.1)
      (htail a) (htail a') hchars
    obtain ⟨hfocus, hrest⟩ := focusMark_split hrest
    obtain ⟨hladder, hrest⟩ := ladderMark_split hs hs' hrest
    have hrungs := rungsMark_inj hs hs' hrest
    simp only [written, ModelIdentity.mk.injEq]
    exact ⟨String.toList_inj.mp hbase, congrArg (Option.map FocusPolicy.budgetTokens) hfocus,
      hladder, hrungs⟩
  · exact decoratedModelId_congr

end Separated

/-- Another assembly never bears the id of this one exactly when this one is undecorated and
its classifier's id does not end as a decoration does. Where no id holds a mark, two
assemblies that differ share their id exactly when they differ only in a calibration that is
absent from the one and of version 0 in the other. -/
theorem decoratedModelId_distinct_iff :
    (∀ a : Assembly,
      (∀ a' : Assembly, a'.modelIdentity ≠ a.modelIdentity →
          a'.decoratedModelId ≠ a.decoratedModelId) ↔
        a.Undecorated ∧ ¬ EndsInMark a.classifier.modelId) ∧
    ∀ a a' : Assembly, a.Separated → a'.Separated → a.modelIdentity ≠ a'.modelIdentity →
      (a.decoratedModelId ≠ a'.decoratedModelId ↔ a.written ≠ a'.written) :=
  ⟨unshared_iff, fun _ _ hs hs' _ => not_congr (decoratedModelId_eq_iff hs hs')⟩

end Assembly

end Assemblies

section Samples

attribute [local instance] plainStd

open Sample hiding request executor

def oneRung (calibration : Option Calibration) : Assembly where
  config := { graph := gateGraph, rules := Sample.noRules }
  classifier := MockClassifier.classifier "primary" OrdMap.empty
  fallbacks := [{ classifier := MockClassifier.classifier "fallback" OrdMap.empty, calibration }]
  ladder_valid := rfl

/-- A rung without calibration, read through the engine's own, shares every key with the same
rung under the identity calibration. -/
theorem decoratedModelId_absentCalibration :
    ∃ a a' : Assembly, a.modelIdentity ≠ a'.modelIdentity ∧
      ∀ given, a.identity given = a'.identity given := by
  refine ⟨oneRung none, oneRung (some identityCalibration), by decide, fun given => ?_⟩
  rfl

end Samples

end OpenCodifier
