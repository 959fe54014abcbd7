import Mathlib.Data.Finset.Max
import Mathlib.Data.Finset.Dedup
import OpenCodifier.Engine.GraphValid
set_option autoImplicit false

namespace OpenCodifier

/-- Dependency ids in first-occurrence order, duplicates dropped. -/
def dedupe (seen : List NodeId) : List NodeId → List NodeId
  | [] => []
  | id :: rest => if id ∈ seen then dedupe seen rest else id :: dedupe (id :: seen) rest

/-- Everything that makes two pure nodes interchangeable: kind, dependency set and knobs. The
source compares a floor or a threshold by its bits; of the rational knobs here a negative zero is
not one, so a graph that has it is not represented. -/
structure Key where
  kind : NodeKind
  dependencies : Finset NodeId
  threshold : Option ℚ
  when' : Option Condition
  topN : Option Nat
  floor : Option ℚ
  reranker : Option String
  deriving DecidableEq

def Key.of (spec : NodeSpec) : Key where
  kind := spec.kind
  dependencies := spec.dependsOn.toFinset
  threshold := spec.threshold
  when' := spec.when'
  topN := spec.topN
  floor := spec.floor
  reranker := spec.reranker

/-- The running state of the merge pass: the survivor of each key, the id each
merged node was rewritten to, and the nodes kept so far. -/
structure MergeState where
  representatives : List (Key × NodeId)
  rewritten : OrdMap NodeId NodeId
  kept : List NodeSpec

def rewriteDeps (rewritten : OrdMap NodeId NodeId) (spec : NodeSpec) : NodeSpec :=
  { spec with dependsOn := spec.dependsOn.map fun d => (rewritten.get? d).getD d }

def mergeNode (acc : MergeState) (spec : NodeSpec) : MergeState :=
  let spec := rewriteDeps acc.rewritten spec
  if spec.isPure then
    match acc.representatives.find? fun e => e.1 = Key.of spec with
    | some survivor => { acc with rewritten := acc.rewritten.insert spec.id survivor.2 }
    | none =>
      { acc with
        representatives := acc.representatives ++ [(Key.of spec, spec.id)]
        kept := acc.kept ++ [spec] }
  else { acc with kept := acc.kept ++ [spec] }

def mergeCommon (nodes : List NodeSpec) : List NodeSpec :=
  (nodes.foldl mergeNode ⟨[], OrdMap.empty, []⟩).kept.map fun spec =>
    { spec with dependsOn := dedupe [] spec.dependsOn }

/-- What the liveness walk pushes for a popped spec: its dependencies that are
still nodes, the last one on top. The walk starts at the output spec of the input
graph; every other spec is looked up among the merged nodes. -/
def liveParents (output : NodeSpec) (nodes : List NodeSpec) (id : NodeId) : List NodeId :=
  let dependencies := if id = output.id then output.dependsOn else depsOf nodes id
  (dependencies.filter (· ∈ nodeIds nodes)).reverse

def liveFuel (output : NodeSpec) (nodes : List NodeSpec) : Nat :=
  1 + (liveParents output nodes output.id).length +
    ((nodeIds nodes).map fun id => (liveParents output nodes id).length).sum

def liveNodes (output : NodeSpec) (nodes : List NodeSpec) : List NodeId :=
  Worklist.explore (liveParents output nodes) (liveFuel output nodes) [output.id] []

def eliminateDead (output : NodeSpec) (nodes : List NodeSpec) : List NodeSpec :=
  let live := liveNodes output nodes
  nodes.filter fun spec => spec.kind = .cache || spec.id ∈ live

def optimize [RustStd] (graph : DecisionGraph) : EngineResult DecisionGraph :=
  DecisionGraph.new graph.version (eliminateDead graph.output (mergeCommon graph.nodes))

theorem mem_dedupe (seen ids : List NodeId) (x : NodeId) :
    x ∈ dedupe seen ids ↔ x ∈ ids ∧ x ∉ seen := by
  induction ids generalizing seen with
  | nil => simp [dedupe]
  | cons id ids ih =>
    simp only [dedupe]
    split
    · rename_i hs
      rw [ih, List.mem_cons]
      constructor
      · rintro ⟨hx, hn⟩
        exact ⟨Or.inr hx, hn⟩
      · rintro ⟨rfl | hx, hn⟩
        · exact absurd hs hn
        · exact ⟨hx, hn⟩
    · rename_i hs
      rw [List.mem_cons, ih, List.mem_cons, List.mem_cons]
      constructor
      · rintro (rfl | ⟨hx, hn⟩)
        · exact ⟨Or.inl rfl, hs⟩
        · exact ⟨Or.inr hx, fun h => hn (Or.inr h)⟩
      · rintro ⟨rfl | hx, hn⟩
        · exact Or.inl rfl
        · by_cases hxi : x = id
          · exact Or.inl hxi
          · exact Or.inr ⟨hx, by tauto⟩

theorem dedupe_nodup (seen ids : List NodeId) : (dedupe seen ids).Nodup := by
  induction ids generalizing seen with
  | nil => simp [dedupe]
  | cons id ids ih =>
    simp only [dedupe]
    split
    · exact ih seen
    · refine List.nodup_cons.mpr ⟨fun h => ?_, ih _⟩
      exact ((mem_dedupe _ _ _).mp h).2 List.mem_cons_self

/-- What a node's dependencies read once the nodes before it are merged: only an
id that sorts earlier has been rewritten by then. -/
def readDep (σ : NodeId → NodeId) (n : NodeSpec) (d : NodeId) : NodeId :=
  if d < n.id then σ d else d

def readSpec (σ : NodeId → NodeId) (n : NodeSpec) : NodeSpec :=
  { n with dependsOn := n.dependsOn.map (readDep σ n) }

/-- Two nodes the merge may not tell apart. -/
def Interchangeable (σ : NodeId → NodeId) (m n : NodeSpec) : Prop :=
  m = n ∨ m.isPure = true ∧ n.isPure = true ∧ Key.of (readSpec σ m) = Key.of (readSpec σ n)

/-- Every node's survivor is the earliest node interchangeable with it. -/
structure SurvivorMap (nodes : List NodeSpec) (σ : NodeId → NodeId) : Prop where
  outside : ∀ d, d ∉ nodeIds nodes → σ d = d
  earliest : ∀ n ∈ nodes, ∃ m ∈ nodes, m.id = σ n.id ∧ m.id ≤ n.id ∧ Interchangeable σ m n ∧
    ∀ k ∈ nodes, k.id < m.id → ¬ Interchangeable σ k n

section Interchange

variable {σ τ : NodeId → NodeId} {k m n : NodeSpec}

theorem Interchangeable.trans (h : Interchangeable σ k m) (h' : Interchangeable σ m n) :
    Interchangeable σ k n := by
  rcases h with rfl | ⟨hk, hm, hkm⟩
  · exact h'
  · rcases h' with rfl | ⟨_, hn, hmn⟩
    · exact Or.inr ⟨hk, hm, hkm⟩
    · exact Or.inr ⟨hk, hn, hkm.trans hmn⟩

theorem readSpec_congr (h : ∀ d < n.id, σ d = τ d) : readSpec σ n = readSpec τ n := by
  have hmap : n.dependsOn.map (readDep σ n) = n.dependsOn.map (readDep τ n) := by
    refine List.map_congr_left fun d _ => ?_
    unfold readDep
    split
    · rename_i hd
      exact h d hd
    · rfl
  simp only [readSpec, hmap]

theorem interchangeable_congr (hm : ∀ d < m.id, σ d = τ d) (hn : ∀ d < n.id, σ d = τ d) :
    Interchangeable σ m n ↔ Interchangeable τ m n := by
  unfold Interchangeable
  rw [readSpec_congr hm, readSpec_congr hn]

theorem key_readSpec_dependencies (h : Key.of (readSpec σ m) = Key.of (readSpec σ n)) (x : NodeId) :
    x ∈ m.dependsOn.map (readDep σ m) ↔ x ∈ n.dependsOn.map (readDep σ n) := by
  have hd : (m.dependsOn.map (readDep σ m)).toFinset = (n.dependsOn.map (readDep σ n)).toFinset :=
    congrArg Key.dependencies h
  rw [← List.mem_toFinset, hd, List.mem_toFinset]

end Interchange

namespace SurvivorMap

variable {nodes : List NodeSpec} {σ : NodeId → NodeId}

theorem mem (hσ : SurvivorMap nodes σ) {d : NodeId} (hd : d ∈ nodeIds nodes) :
    σ d ∈ nodeIds nodes ∧ σ d ≤ d := by
  obtain ⟨n, hn, rfl⟩ := mem_nodeIds.mp hd
  obtain ⟨m, hm, hid, hle, _⟩ := hσ.earliest n hn
  exact ⟨hid ▸ mem_nodeIds.mpr ⟨m, hm, rfl⟩, hid ▸ hle⟩

theorem idempotent (hσ : SurvivorMap nodes σ) (d : NodeId) : σ (σ d) = σ d := by
  by_cases hd : d ∈ nodeIds nodes
  · obtain ⟨n, hn, rfl⟩ := mem_nodeIds.mp hd
    obtain ⟨m, hm, hid, _, hint, hleast⟩ := hσ.earliest n hn
    obtain ⟨k, hk, hkid, hkle, hkint, _⟩ := hσ.earliest m hm
    rw [← hid, ← hkid]
    by_contra hne
    exact hleast k hk (lt_of_le_of_ne hkle hne) (hkint.trans hint)
  · rw [hσ.outside d hd, hσ.outside d hd]

theorem impure (hσ : SurvivorMap nodes σ) {n : NodeSpec} (hn : n ∈ nodes)
    (hp : n.isPure = false) : σ n.id = n.id := by
  obtain ⟨m, _, hid, _, hint, _⟩ := hσ.earliest n hn
  rcases hint with rfl | ⟨_, hnp, _⟩
  · exact hid.symm
  · rw [hp] at hnp
    cases hnp

theorem isPure (hσ : SurvivorMap nodes σ) (hs : (nodeIds nodes).Nodup) {m n : NodeSpec}
    (hm : m ∈ nodes) (hn : n ∈ nodes) (h : σ n.id = m.id) (hne : m ≠ n) : m.isPure = true := by
  obtain ⟨m', hm', hid, _, hint, _⟩ := hσ.earliest n hn
  obtain rfl : m' = m := node_ext_id hs hm' hm (hid.trans h)
  rcases hint with rfl | ⟨hmp, _⟩
  · exact absurd rfl hne
  · exact hmp

end SurvivorMap

theorem exists_earliest (σ : NodeId → NodeId) {nodes : List NodeSpec} {n : NodeSpec}
    (hn : n ∈ nodes) :
    ∃ m ∈ nodes, Interchangeable σ m n ∧ ∀ k ∈ nodes, k.id < m.id → ¬ Interchangeable σ k n := by
  classical
  have hne : (nodes.toFinset.filter fun m => Interchangeable σ m n).Nonempty :=
    ⟨n, Finset.mem_filter.mpr ⟨List.mem_toFinset.mpr hn, Or.inl rfl⟩⟩
  obtain ⟨m, hm, hmin⟩ := Finset.exists_min_image _ NodeSpec.id hne
  rw [Finset.mem_filter, List.mem_toFinset] at hm
  refine ⟨m, hm.1, hm.2, fun k hk hlt hint => ?_⟩
  have := hmin k (Finset.mem_filter.mpr ⟨List.mem_toFinset.mpr hk, hint⟩)
  exact absurd hlt (not_lt.mpr this)

theorem exists_survivorMap (nodes : List NodeSpec) (hs : (nodeIds nodes).Pairwise (· < ·)) :
    ∃ σ, SurvivorMap nodes σ := by
  induction nodes using List.reverseRecOn with
  | nil => exact ⟨id, fun _ _ => rfl, by simp⟩
  | append_singleton nodes n ih =>
    rw [nodeIds, List.map_append, List.pairwise_append] at hs
    obtain ⟨hs, _, hlt⟩ := hs
    have hlt : ∀ m ∈ nodes, m.id < n.id := fun m hm =>
      hlt m.id (List.mem_map_of_mem hm) n.id (by simp)
    have hle : ∀ m ∈ nodes ++ [n], m.id ≤ n.id := by
      intro m hm
      rcases List.mem_append.mp hm with hm | hm
      · exact (hlt m hm).le
      · rw [List.mem_singleton.mp hm]
    obtain ⟨σ, hσ⟩ := ih hs
    obtain ⟨e, he, hint, hleast⟩ :=
      exists_earliest σ (List.mem_append_right nodes (List.mem_singleton_self n))
    have hagree : ∀ m : NodeSpec, m.id ≤ n.id → ∀ d < m.id, Function.update σ n.id e.id d = σ d :=
      fun m hm d hd => Function.update_of_ne (hd.trans_le hm).ne _ _
    refine ⟨Function.update σ n.id e.id, fun d hd => ?_, fun m hm => ?_⟩
    · rw [nodeIds, List.map_append, List.mem_append, not_or] at hd
      rw [Function.update_of_ne (by simpa using hd.2)]
      exact hσ.outside d hd.1
    · rcases List.mem_append.mp hm with hm | hm
      · obtain ⟨m', hm', hid, hmle, hint', hleast'⟩ := hσ.earliest m hm
        refine ⟨m', List.mem_append_left _ hm', ?_, hmle, ?_, fun k hk hkm => ?_⟩
        · rw [Function.update_of_ne (hlt m hm).ne]
          exact hid
        · exact (interchangeable_congr (hagree m' (hlt m' hm').le) (hagree m (hlt m hm).le)).mpr hint'
        · rw [interchangeable_congr (hagree k (hle k hk)) (hagree m (hlt m hm).le)]
          rcases List.mem_append.mp hk with hk | hk
          · exact hleast' k hk hkm
          · rw [List.mem_singleton.mp hk] at hkm
            exact absurd (hkm.trans (hlt m' hm')) (lt_irrefl _)
      · obtain rfl := List.mem_singleton.mp hm
        refine ⟨e, he, by simp, hle e he, ?_, fun k hk hke => ?_⟩
        · exact (interchangeable_congr (hagree e (hle e he)) (hagree m le_rfl)).mpr hint
        · rw [interchangeable_congr (hagree k (hle k hk)) (hagree m le_rfl)]
          exact hleast k hk hke

/-- The merge pass after the nodes of `done`, in terms of the survivor map. -/
structure MergedPrefix (σ : NodeId → NodeId) (done : List NodeSpec) (acc : MergeState) : Prop where
  representatives : acc.representatives =
    (done.filter fun n => n.isPure ∧ σ n.id = n.id).map fun n => (Key.of (readSpec σ n), n.id)
  rewritten : ∀ d, acc.rewritten.get? d = if d ∈ nodeIds done ∧ σ d ≠ d then some (σ d) else none
  kept : acc.kept = (done.filter fun n => σ n.id = n.id).map (readSpec σ)

section Pass

variable {σ : NodeId → NodeId} {done rest : List NodeSpec} {n : NodeSpec} {acc : MergeState}

theorem MergedPrefix.rewriteDeps_eq (h : MergedPrefix σ done acc)
    (hσ : SurvivorMap (done ++ n :: rest) σ) (hs : (nodeIds (done ++ n :: rest)).Pairwise (· < ·)) :
    rewriteDeps acc.rewritten n = readSpec σ n := by
  rw [nodeIds, List.map_append, List.map_cons, List.pairwise_append] at hs
  have hmap : n.dependsOn.map (fun d => (acc.rewritten.get? d).getD d) =
      n.dependsOn.map (readDep σ n) := by
    refine List.map_congr_left fun d _ => ?_
    rw [h.rewritten d]
    unfold readDep
    by_cases hd : d ∈ nodeIds done
    · have hlt : d < n.id := hs.2.2 d hd n.id List.mem_cons_self
      by_cases hσd : σ d = d
      · simp [hlt, hσd]
      · simp [hd, hlt, hσd]
    · by_cases hlt : d < n.id
      · have hout : d ∉ nodeIds (done ++ n :: rest) := by
          rw [nodeIds, List.map_append, List.map_cons, List.mem_append, List.mem_cons]
          rintro (hm | rfl | hm)
          · exact hd hm
          · exact lt_irrefl _ hlt
          · exact lt_asymm hlt (List.rel_of_pairwise_cons hs.2.1 hm)
        simp [hd, hlt, hσ.outside d hout]
      · simp [hd, hlt]
  simp only [rewriteDeps, readSpec, hmap]

/-- The survivor the pass finds is the one of the survivor map. -/
theorem MergedPrefix.find?_eq (h : MergedPrefix σ done acc)
    (hσ : SurvivorMap (done ++ n :: rest) σ) (hs : (nodeIds (done ++ n :: rest)).Pairwise (· < ·))
    (hp : n.isPure = true) :
    ((acc.representatives.find? fun e => e.1 = Key.of (readSpec σ n)).map Prod.snd) =
      if σ n.id = n.id then none else some (σ n.id) := by
  have hnd : (nodeIds (done ++ n :: rest)).Nodup := hs.imp ne_of_lt
  have hn : n ∈ done ++ n :: rest := by simp
  rw [nodeIds, List.map_append, List.map_cons, List.pairwise_append] at hs
  have hlt : ∀ m ∈ done, m.id < n.id := fun m hm =>
    hs.2.2 m.id (List.mem_map_of_mem hm) n.id List.mem_cons_self
  obtain ⟨m, hm, hid, hle, hint, hleast⟩ := hσ.earliest n hn
  cases hf : acc.representatives.find? fun e => e.1 = Key.of (readSpec σ n) with
  | none =>
    rw [Option.map_none]
    split
    · rfl
    · rename_i hne
      have hmn : m.id < n.id := lt_of_le_of_ne hle (hid ▸ hne)
      rcases hint with rfl | ⟨hmp, _, hkey⟩
      · exact absurd hmn (lt_irrefl _)
      · have hmd : m ∈ done := by
          rcases List.mem_append.mp hm with hm | hm
          · exact hm
          · rcases List.mem_cons.mp hm with rfl | hm
            · exact absurd hmn (lt_irrefl _)
            · exact absurd (hmn.trans (List.rel_of_pairwise_cons hs.2.1 (List.mem_map_of_mem hm)))
                (lt_irrefl _)
        have hmem : (Key.of (readSpec σ m), m.id) ∈ acc.representatives := by
          rw [h.representatives]
          refine List.mem_map.mpr ⟨m, List.mem_filter.mpr ⟨hmd, ?_⟩, rfl⟩
          simp [hmp, hid, hσ.idempotent]
        have := List.find?_eq_none.mp hf _ hmem
        simp [hkey] at this
  | some e =>
    have he := List.mem_of_find?_eq_some hf
    have hekey : e.1 = Key.of (readSpec σ n) := by simpa using List.find?_some hf
    rw [h.representatives, List.mem_map] at he
    obtain ⟨k, hk, rfl⟩ := he
    rw [List.mem_filter, decide_eq_true_eq] at hk
    obtain ⟨hkd, hkp, hkσ⟩ := hk
    have hkm : k ∈ done ++ n :: rest := List.mem_append_left _ hkd
    have hkint : Interchangeable σ k n := Or.inr ⟨hkp, hp, hekey⟩
    have hmk : σ n.id = k.id := by
      obtain ⟨k', _, hk'id, _, hk'int, hk'least⟩ := hσ.earliest k hkm
      rw [hkσ] at hk'id
      refine le_antisymm ?_ ?_
      · rw [← hid]
        exact not_lt.mp fun hl => hleast k hkm hl hkint
      · rw [← hid, ← hk'id]
        refine not_lt.mp fun hl => hk'least m hm hl ?_
        rcases hint with rfl | ⟨hmp, _, hkey⟩
        · exact Or.inr ⟨hp, hkp, hekey.symm⟩
        · exact Or.inr ⟨hmp, hkp, hkey.trans hekey.symm⟩
    rw [Option.map_some, if_neg, hmk]
    rw [hmk]
    exact (hlt k hkd).ne

theorem MergedPrefix.step (h : MergedPrefix σ done acc)
    (hσ : SurvivorMap (done ++ n :: rest) σ)
    (hs : (nodeIds (done ++ n :: rest)).Pairwise (· < ·)) :
    MergedPrefix σ (done ++ [n]) (mergeNode acc n) := by
  have hn : n ∈ done ++ n :: rest := by simp
  have hrewritten : σ n.id = n.id → ∀ d, acc.rewritten.get? d =
      if d ∈ nodeIds (done ++ [n]) ∧ σ d ≠ d then some (σ d) else none := by
    intro hσn d
    rw [h.rewritten d]
    by_cases hd : d = n.id
    · subst hd
      simp [hσn]
    · simp [nodeIds, hd]
  unfold mergeNode
  rw [h.rewriteDeps_eq hσ hs]
  by_cases hp : n.isPure = true
  · have hfind := h.find?_eq hσ hs hp
    rw [if_pos (show (readSpec σ n).isPure = true from hp)]
    cases hf : acc.representatives.find? fun e => e.1 = Key.of (readSpec σ n) with
    | none =>
      rw [hf, Option.map_none] at hfind
      have hσn : σ n.id = n.id := by
        by_contra hne
        rw [if_neg hne] at hfind
        cases hfind
      refine ⟨?_, hrewritten hσn, ?_⟩
      · simp [h.representatives, hp, hσn, readSpec]
      · simp [h.kept, hσn]
    | some e =>
      rw [hf, Option.map_some] at hfind
      have hσn : σ n.id ≠ n.id := by
        intro heq
        rw [if_pos heq] at hfind
        cases hfind
      rw [if_neg hσn] at hfind
      refine ⟨?_, fun d => ?_, ?_⟩
      · simp [h.representatives, hσn]
      · change (acc.rewritten.insert n.id e.2).get? d = _
        rw [OrdMap.get?_insert, h.rewritten d]
        by_cases hd : d = n.id
        · subst hd
          simpa [nodeIds, hσn] using hfind
        · simp [nodeIds, hd]
      · simp [h.kept, hσn]
  · have hσn : σ n.id = n.id := hσ.impure hn (by simpa using hp)
    rw [if_neg (show ¬ (readSpec σ n).isPure = true from hp)]
    refine ⟨?_, hrewritten hσn, ?_⟩
    · simp [h.representatives, hp]
    · simp [h.kept, hσn]

theorem MergedPrefix.run (h : MergedPrefix σ done acc) (hσ : SurvivorMap (done ++ rest) σ)
    (hs : (nodeIds (done ++ rest)).Pairwise (· < ·)) :
    MergedPrefix σ (done ++ rest) (rest.foldl mergeNode acc) := by
  induction rest generalizing done acc with
  | nil => simpa using h
  | cons n rest ih =>
    have happ : done ++ n :: rest = done ++ [n] ++ rest := by simp
    rw [List.foldl_cons, happ]
    exact ih (h.step hσ hs) (happ ▸ hσ) (happ ▸ hs)

end Pass

def mergedSpec (σ : NodeId → NodeId) (n : NodeSpec) : NodeSpec :=
  { n with dependsOn := dedupe [] (n.dependsOn.map (readDep σ n)) }

/-- The merge pass keeps the survivors, each reading survivors of what sorts before it. -/
theorem mergeCommon_eq {nodes : List NodeSpec} {σ : NodeId → NodeId} (hσ : SurvivorMap nodes σ)
    (hs : (nodeIds nodes).Pairwise (· < ·)) :
    mergeCommon nodes = (nodes.filter fun n => σ n.id = n.id).map (mergedSpec σ) := by
  have hstart : MergedPrefix σ [] ⟨[], OrdMap.empty, []⟩ := ⟨by simp, by simp [nodeIds], by simp⟩
  have hrun : MergedPrefix σ ([] ++ nodes) _ := hstart.run hσ hs
  unfold mergeCommon
  rw [hrun.kept, List.map_map]
  rfl

end OpenCodifier
