import OpenCodifier.Itemgen.CorpusMerge
import OpenCodifier.Itemgen.Mentions
set_option autoImplicit false

namespace OpenCodifier.Itemgen

open Neighbours (spans mem_spans spans_map)
open Words (words)

/-- What keeps items that are close to the suite out of the corpus: the normalized texts of the
suite, and the hashes of its spans. -/
structure SuiteGuard where
  exact : List String
  shingles : List (BitVec 64)

section Hashing

def fnvBasis : BitVec 64 := 0xCBF29CE484222325

def fnvPrime : BitVec 64 := 0x00000100000001B3

def fnv1a (bytes : List UInt8) : BitVec 64 :=
  bytes.foldl (fun hash byte => (hash ^^^ BitVec.ofNat 64 byte.toNat) * fnvPrime) fnvBasis

def wordHash (word : String) : BitVec 64 := fnv1a word.toUTF8.data.toList

def spanHash (window : List (BitVec 64)) : BitVec 64 :=
  window.foldl (fun acc word => (acc ^^^ word) * fnvPrime) fnvBasis

end Hashing

namespace SuiteGuard

variable [RustStd]

def spanSize : Nat := 12

def shinglesOf (text : List Char) (size : Nat) : List (BitVec 64) :=
  let hashed := (words RustStd.isWhitespace text).map fun word => wordHash (String.ofList word)
  (spans size hashed).map spanHash

/-- The state and the question in one text, a line each. -/
def exactKey (state question : String) : String :=
  String.ofList (normalize state ++ '\n' :: normalize question)

def empty : SuiteGuard := ⟨[], []⟩

def add (guard : SuiteGuard) (item : String × String) : SuiteGuard :=
  ⟨exactKey item.1 item.2 :: guard.exact, shinglesOf (normalize item.1) spanSize ++ guard.shingles⟩

def readItem (item : Json) : Except String (String × String) := do
  let context ← (textOf item "context").elim (.error "suite item without context") .ok
  let question ← (textOf item "question").elim (.error "suite item without question") .ok
  pure (context, question)

def loadItem (guard : SuiteGuard) (item : Json) : Except String SuiteGuard := do
  let item ← readItem item
  pure (guard.add item)

def itemsOf (suite : Json) : Except String (List Json) :=
  match suite.get "items" with
  | some (.arr items) => .ok items
  | _ => .error "suite has no items array"

def load [JsonText] (path : String) (file : Except String String) : Except String SuiteGuard := do
  let raw ← file.mapError ("cannot read suite " ++ path ++ ": " ++ ·)
  let suite ← (JsonText.parse raw).mapError ("malformed suite: " ++ ·)
  let items ← itemsOf suite.normalize
  items.foldlM loadItem empty

/-- An item of the suite has the normalized state and question, or a span of the state's words
hashes like one of the suite. -/
def collides (guard : SuiteGuard) (state question : String) : Bool :=
  guard.exact.contains (exactKey state question) ||
    (shinglesOf (normalize state) spanSize).any fun shingle => guard.shingles.contains shingle

section Law

omit [RustStd] in
theorem foldl_normalizeStep (text : List Char) (state : List Char × Bool)
    (h : ∀ c ∈ state.1, c ≠ '\n') : ∀ c ∈ (text.foldl normalizeStep state).1, c ≠ '\n' := by
  induction text generalizing state with
  | nil => exact h
  | cons c text ih =>
    refine ih _ ?_
    rw [normalizeStep]
    split
    · rename_i hc
      intro d hd
      rcases List.mem_append.mp hd with hd | hd
      · exact h d hd
      · rw [List.mem_singleton.mp hd]
        intro hline
        have halnum : c.toLower.isAlphanum = true := (isAlphanum_toLower c).trans hc
        rw [hline] at halnum
        exact absurd halnum (by decide)
    · split
      · exact h
      · intro d hd
        rcases List.mem_append.mp hd with hd | hd
        · exact h d hd
        · rw [List.mem_singleton.mp hd]
          decide

theorem normalize_line (text : String) : '\n' ∉ normalize text := by
  intro h
  have hmem := (List.rdropWhile_prefix RustStd.isWhitespace _).subset h
  exact foldl_normalizeStep text.toList ([], true) (by simp) '\n' hmem rfl

theorem exactKey_inj {state question state' question' : String} :
    exactKey state question = exactKey state' question' ↔
      normalize state = normalize state' ∧ normalize question = normalize question' := by
  rw [exactKey, exactKey, String.ofList_inj,
    List.append_cons_inj_of_notMem (normalize_line state) (normalize_line question)]
  simp

def wordsHash (window : List String) : BitVec 64 := spanHash (window.map wordHash)

theorem mem_shinglesOf (hlaws : BlankLaws) {text : String} {shingle : BitVec 64} :
    shingle ∈ shinglesOf (normalize text) spanSize ↔
      ∃ w, w <:+: mentions text ∧ w.length = spanSize ∧ wordsHash w = shingle := by
  have hwords : (words RustStd.isWhitespace (normalize text)).map
      (fun word => wordHash (String.ofList word)) = (mentions text).map wordHash := by
    rw [← tokens_eq hlaws, tokens, List.map_map]
    rfl
  rw [shinglesOf, hwords, spans_map, List.map_map, List.mem_map]
  constructor
  · rintro ⟨w, hw, rfl⟩
    obtain ⟨hspan, hlength⟩ := mem_spans.mp hw
    exact ⟨w, hspan, hlength, rfl⟩
  · rintro ⟨w, hspan, hlength, rfl⟩
    exact ⟨w, mem_spans.mpr ⟨hspan, hlength⟩, rfl⟩

structure Holds (guard : SuiteGuard) (items : List (String × String)) : Prop where
  exact : ∀ key, key ∈ guard.exact ↔ ∃ item ∈ items, exactKey item.1 item.2 = key
  shingles : ∀ shingle, shingle ∈ guard.shingles ↔
    ∃ item ∈ items, shingle ∈ shinglesOf (normalize item.1) spanSize

theorem holds_empty : empty.Holds [] := ⟨by simp [empty], by simp [empty]⟩

theorem Holds.add {guard : SuiteGuard} {items : List (String × String)} (h : guard.Holds items)
    (item : String × String) : (guard.add item).Holds (items ++ [item]) := by
  refine ⟨fun key => ?_, fun shingle => ?_⟩
  · rw [SuiteGuard.add, List.mem_cons, h.exact]
    simp only [List.mem_append, List.mem_singleton, or_and_right, exists_or, exists_eq_left]
    rw [eq_comm, or_comm]
  · rw [SuiteGuard.add, List.mem_append, h.shingles]
    simp only [List.mem_append, List.mem_singleton, or_and_right, exists_or, exists_eq_left]
    rw [or_comm]

/-- A guard is loaded from a suite all of whose items can be read, and holds them. -/
theorem foldlM_loadItem {items : List Json} {guard guard' : SuiteGuard}
    {before : List (String × String)} (h : guard.Holds before)
    (hrun : items.foldlM loadItem guard = .ok guard') :
    ∃ read, items.mapM readItem = .ok read ∧ guard'.Holds (before ++ read) := by
  induction items generalizing guard before with
  | nil =>
    cases hrun
    exact ⟨[], rfl, by rwa [List.append_nil]⟩
  | cons item items ih =>
    rw [List.foldlM_cons] at hrun
    obtain ⟨next, hnext, hrun⟩ := Result.bind_ok.mp hrun
    obtain ⟨pair, hpair, hnext⟩ := Result.bind_ok.mp hnext
    cases hnext
    obtain ⟨read, hread, hholds⟩ := ih (h.add pair) hrun
    refine ⟨pair :: read, ?_, by rwa [List.append_assoc] at hholds⟩
    rw [List.mapM_cons, hpair, hread]
    rfl

def itemsIn [JsonText] (file : Except String String) : Except String (List (String × String)) := do
  let raw ← file
  let suite ← JsonText.parse raw
  let items ← itemsOf suite.normalize
  items.mapM readItem

def SharesSpan (context state : String) : Prop :=
  ∃ w, w.length = spanSize ∧ w <:+: mentions context ∧ w <:+: mentions state

/-- What a loaded guard finds: an item of the suite with the same normalized state and question, or
two spans with one hash. It never misses a span that is shared. -/
theorem collides_iff [JsonText] (hlaws : BlankLaws) {path : String} {file : Except String String}
    {guard : SuiteGuard} (h : load path file = .ok guard) :
    ∃ items, itemsIn file = .ok items ∧ ∀ state question,
      (guard.collides state question = true ↔
        (∃ item ∈ items, normalize item.1 = normalize state ∧
            normalize item.2 = normalize question) ∨
          ∃ item ∈ items, ∃ w v, w.length = spanSize ∧ v.length = spanSize ∧
            w <:+: mentions item.1 ∧ v <:+: mentions state ∧ wordsHash w = wordsHash v) ∧
      ((∃ item ∈ items, SharesSpan item.1 state) → guard.collides state question = true) := by
  obtain ⟨raw, hraw, h⟩ := Result.bind_ok.mp h
  obtain ⟨suite, hsuite, h⟩ := Result.bind_ok.mp h
  obtain ⟨items, hitems, h⟩ := Result.bind_ok.mp h
  obtain ⟨read, hread, hholds⟩ := foldlM_loadItem holds_empty h
  rw [List.nil_append] at hholds
  have hfound (state question : String) : guard.collides state question = true ↔
      (∃ item ∈ read, normalize item.1 = normalize state ∧
          normalize item.2 = normalize question) ∨
        ∃ item ∈ read, ∃ w v, w.length = spanSize ∧ v.length = spanSize ∧
          w <:+: mentions item.1 ∧ v <:+: mentions state ∧ wordsHash w = wordsHash v := by
    rw [collides, Bool.or_eq_true, List.contains_iff_mem, hholds.exact, List.any_eq_true]
    simp only [exactKey_inj, List.contains_iff_mem, hholds.shingles, mem_shinglesOf hlaws]
    refine or_congr_right ⟨?_, ?_⟩
    · rintro ⟨_, ⟨v, hv, hvsize, rfl⟩, item, hitem, w, hw, hwsize, hhash⟩
      exact ⟨item, hitem, w, v, hwsize, hvsize, hw, hv, hhash⟩
    · rintro ⟨item, hitem, w, v, hwsize, hvsize, hw, hv, hhash⟩
      exact ⟨_, ⟨v, hv, hvsize, rfl⟩, item, hitem, w, hw, hwsize, hhash⟩
  refine ⟨read, ?_, fun state question => ⟨hfound state question, ?_⟩⟩
  · rw [itemsIn, Result.mapError_ok.mp hraw, ← hread]
    change (JsonText.parse raw >>= fun suite => itemsOf suite.normalize >>= _) = _
    rw [Result.mapError_ok.mp hsuite]
    change (itemsOf suite.normalize >>= _) = _
    rw [hitems]
    rfl
  · rintro ⟨item, hitem, w, hsize, hcontext, hstate⟩
    exact (hfound state question).mpr
      (.inr ⟨item, hitem, w, w, hsize, hsize, hcontext, hstate, rfl⟩)

end Law

end SuiteGuard

section Sample

attribute [local instance] plainStd

def suiteItem : String × String :=
  ("The north cluster lost power at noon and was restored by the evening crew.",
    "Which cluster lost power?")

abbrev suiteTexts : JsonText where
  write _ := ""
  parse _ := .ok (.obj [("items", .arr [.obj [("context", .str suiteItem.1),
    ("question", .str suiteItem.2)]])])

attribute [local instance] suiteTexts

/-- A state that has twelve words of the item in it. -/
def leakedState : String :=
  "Log: the North cluster lost power at noon, and was restored by the evening shift."

/-- The guard finds twelve words of the item in another state. -/
theorem collides_iff_suite : BlankLaws ∧ ∃ guard,
    SuiteGuard.load "suite.json" (.ok "{}") = .ok guard ∧
      SuiteGuard.SharesSpan suiteItem.1 leakedState ∧
      guard.collides leakedState "Which shift restored it?" = true := by
  have hload : (SuiteGuard.load "suite.json" (.ok "{}")).toOption.isSome = true := by
    decide +kernel
  obtain ⟨guard, hload⟩ := Result.ok_of_isSome hload
  obtain ⟨items, hitems, hfound⟩ := SuiteGuard.collides_iff plain_blankLaws hload
  have hitem : items = [suiteItem] := by
    have hread : SuiteGuard.itemsIn (.ok "{}") = .ok [suiteItem] := rfl
    rw [hitems] at hread
    exact Except.ok.inj hread
  have hshares : SuiteGuard.SharesSpan suiteItem.1 leakedState :=
    ⟨(mentions suiteItem.1).take 12, by decide +kernel, by decide +kernel, by decide +kernel⟩
  exact ⟨plain_blankLaws, guard, hload, hshares,
    (hfound leakedState _).2 ⟨suiteItem, by rw [hitem]; exact List.mem_singleton_self _, hshares⟩⟩

end Sample

end OpenCodifier.Itemgen
