import OpenCodifier.Lib.JsonStrings
import OpenCodifier.Lib.Loop
import OpenCodifier.Schema.Native
set_option autoImplicit false

namespace OpenCodifier

open Loop

section Bytes

theorem takeBytes_zero (l : List Char) : takeBytes 0 l = [] := by
  cases l with
  | nil => rfl
  | cons c rest => rw [takeBytes, if_neg (Nat.not_le.mpr c.utf8Size_pos)]

theorem takeBytes_initial (n : Nat) (l : List Char) : takeBytes n l <+: l := by
  induction l generalizing n with
  | nil => simp [takeBytes]
  | cons c rest ih =>
    rw [takeBytes]
    split
    · exact List.cons_prefix_cons.mpr ⟨rfl, ih _⟩
    · exact List.nil_prefix

theorem takeBytes_eq_of_le {m n : Nat} {l : List Char} (hm : utf8Len (takeBytes n l) ≤ m)
    (hn : m ≤ n) : takeBytes m l = takeBytes n l := by
  induction l generalizing m n with
  | nil => rfl
  | cons c rest ih =>
    by_cases hc : c.utf8Size ≤ n
    · rw [takeBytes, if_pos hc, utf8Len_cons] at hm
      have hrest := @ih (m - c.utf8Size) (n - c.utf8Size) (by omega) (by omega)
      rw [takeBytes, takeBytes, if_pos hc, if_pos (by omega), hrest]
    · rw [takeBytes, takeBytes, if_neg hc, if_neg (by omega)]

theorem isCharBoundary_first (c : Char) (rest : List Char) :
    isCharBoundary c.utf8Size (c :: rest) = true := by
  rw [isCharBoundary, takeBytes, if_pos (Nat.le_refl _), Nat.sub_self, takeBytes_zero]
  simp [utf8Len]

end Bytes

namespace EscalationReport

section Guidance

variable {guidance : List Char}

/-- The guidance an eighth shorter, by one byte at least, back to a character boundary. -/
def shorter (guidance : List Char) : List Char :=
  takeBytes (utf8Len guidance - max (utf8Len guidance / 8) 1) guidance

theorem shorter_initial (guidance : List Char) : shorter guidance <+: guidance :=
  takeBytes_initial _ _

theorem shorter_ne_nil (h : 1 < guidance.length) : shorter guidance ≠ [] := by
  obtain ⟨c, d, rest, rfl⟩ : ∃ c d rest, guidance = c :: d :: rest := by
    match guidance, h with
    | c :: d :: rest, _ => exact ⟨c, d, rest, rfl⟩
  have hc := c.utf8Size_le_four
  have hd := d.utf8Size_pos
  rw [shorter, takeBytes, if_pos]
  · exact List.cons_ne_nil _ _
  · rw [utf8Len_cons, utf8Len_cons]
    omega

theorem shorter_length_lt (h : 1 < guidance.length) :
    (shorter guidance).length < guidance.length := by
  refine lt_of_le_of_ne (shorter_initial guidance).length_le fun hlen => ?_
  have hsame := (shorter_initial guidance).eq_of_length hlen
  have hle := utf8Len_takeBytes_le (utf8Len guidance - max (utf8Len guidance / 8) 1) guidance
  rw [← shorter, hsame] at hle
  have hpos : 0 < utf8Len guidance := by
    cases guidance with
    | nil => simp at h
    | cons c rest =>
      have := c.utf8Size_pos
      rw [utf8Len_cons]
      omega
  omega

theorem boundaryCut_run (guidance : List Char) (len cut : Nat) :
    Runs (fun cut => cut < len ∧ isCharBoundary (len - cut) guidance = false) (· + 1) cut
      (boundaryCut guidance len len cut) := by
  refine Runs.of_fuel (f := boundaryCut guidance len) (fun cut => len - cut) (fun _ => rfl)
    (fun n cut => ?_) (fun cut h => ?_) len cut (Nat.sub_le _ _)
  · rw [boundaryCut]
    simp
  · have := h.1
    change len - (cut + 1) < len - cut
    omega

theorem takeBytes_boundaryCut (guidance : List Char) :
    takeBytes (utf8Len guidance - boundaryCut guidance (utf8Len guidance) (utf8Len guidance)
      (max (utf8Len guidance / 8) 1)) guidance = shorter guidance := by
  refine (boundaryCut_run guidance (utf8Len guidance) _).invariant
    (I := fun cut => takeBytes (utf8Len guidance - cut) guidance = shorter guidance) ?_ rfl
  rintro cut h ⟨hlt, hnot⟩
  have hle := utf8Len_takeBytes_le (utf8Len guidance - cut) guidance
  have hne : utf8Len (takeBytes (utf8Len guidance - cut) guidance) ≠ utf8Len guidance - cut :=
    fun he => by simp [isCharBoundary, he] at hnot
  rw [← h]
  exact takeBytes_eq_of_le (by omega) (by omega)

/-- Stepping back passes the whole guidance only when that is one character. -/
theorem le_boundaryCut_iff (guidance : List Char) :
    utf8Len guidance ≤ boundaryCut guidance (utf8Len guidance) (utf8Len guidance)
      (max (utf8Len guidance / 8) 1) ↔ guidance.length ≤ 1 := by
  have hrun := boundaryCut_run guidance (utf8Len guidance) (max (utf8Len guidance / 8) 1)
  match guidance, hrun with
  | [], _ => simp [utf8Len]
  | [c], hrun =>
    refine iff_of_true (Nat.not_lt.mp fun hlt => ?_) (Nat.le_refl 1)
    have hpos := hrun.invariant (I := fun cut => 0 < cut) (fun _ _ _ => Nat.succ_pos _)
      (by omega)
    have hstop := hrun.exit
    simp only [not_and, Bool.not_eq_false] at hstop
    have hat := hstop hlt
    have hlen : utf8Len [c] = c.utf8Size := by simp [utf8Len]
    rw [isCharBoundary, takeBytes, if_neg (by omega)] at hat
    simp only [utf8Len, List.map_nil, List.sum_nil, beq_iff_eq] at hat
    simp only [utf8Len] at hlt
    omega
  | c :: d :: rest, hrun =>
    have hc := c.utf8Size_le_four
    have hpos := c.utf8Size_pos
    have hd := d.utf8Size_pos
    have hlen : utf8Len (c :: d :: rest) = c.utf8Size + (d.utf8Size + utf8Len rest) := rfl
    have hle := hrun.invariant
      (I := fun cut => cut ≤ utf8Len (c :: d :: rest) - c.utf8Size) ?_ (by omega)
    · refine iff_of_false (by omega) ?_
      simp
    · rintro cut h ⟨_, hnot⟩
      have hne : cut ≠ utf8Len (c :: d :: rest) - c.utf8Size := by
        rintro rfl
        rw [Nat.sub_sub_self (by omega), isCharBoundary_first] at hnot
        cases hnot
      omega

end Guidance

section Loops

variable (size : EscalationReport → Nat) (maxBytes : Nat) (r : EscalationReport)

/-- A marked report with its variable parts replaced. -/
def kept (trace : List TraceEntry) (ruledOut ruledIn : List CandidateEvidence)
    (guidance : String) : EscalationReport :=
  { r with payload := { r.payload with
    trace, candidatesRuledOut := ruledOut, candidatesRuledIn := ruledIn, guidance,
    truncated := true } }

/-- The runs of the source: a report that fits is returned, another one is marked and goes through
the four loops, each on what the loops before it left. -/
inductive FitRun : EscalationReport → EscalationReport → Prop
  | fits {r : EscalationReport} : size r ≤ maxBytes → FitRun r r
  | cut {r : EscalationReport} {trace : List TraceEntry}
      {ruledOut ruledIn : List CandidateEvidence} {guidance : List Char} :
      maxBytes < size r →
      Runs (fun l => maxBytes < size (r.kept l r.payload.candidatesRuledOut
        r.payload.candidatesRuledIn r.payload.guidance) ∧ l ≠ []) List.dropLast
        r.payload.trace trace →
      Runs (fun l => maxBytes < size (r.kept trace l r.payload.candidatesRuledIn
        r.payload.guidance) ∧ l ≠ []) List.dropLast r.payload.candidatesRuledOut ruledOut →
      Runs (fun l => maxBytes < size (r.kept trace ruledOut l r.payload.guidance) ∧ l ≠ [])
        List.dropLast r.payload.candidatesRuledIn ruledIn →
      Runs (fun g => maxBytes < size (r.kept trace ruledOut ruledIn (String.ofList g)) ∧
        1 < g.length) shorter r.payload.guidance.toList guidance →
      FitRun r (r.kept trace ruledOut ruledIn (String.ofList guidance))

theorem FitRun.unique {r out out' : EscalationReport} (h : FitRun size maxBytes r out)
    (h' : FitRun size maxBytes r out') : out = out' := by
  cases h with
  | fits hfits =>
    cases h' with
    | fits => rfl
    | cut hover => exact absurd hover (Nat.not_lt.mpr hfits)
  | cut hover htrace hout hin hguidance =>
    cases h' with
    | fits hfits => exact absurd hover (Nat.not_lt.mpr hfits)
    | cut _ htrace' hout' hin' hguidance' =>
      obtain rfl := htrace.unique htrace'
      obtain rfl := hout.unique hout'
      obtain rfl := hin.unique hin'
      rw [hguidance.unique hguidance']

theorem cutTail_run {α : Type} (rebuild : List α → EscalationReport) (l : List α) :
    Runs (fun l => maxBytes < size (rebuild l) ∧ l ≠ []) List.dropLast l
      (cutTail size rebuild maxBytes l.length l) := by
  classical
  refine Runs.of_fuel (f := cutTail size rebuild maxBytes) List.length (fun _ => rfl)
    (fun n l => ?_) (fun l h => ?_) l.length l (Nat.le_refl _)
  · simp [cutTail]
  · have := List.length_pos_iff.mpr h.2
    rw [List.length_dropLast]
    omega

theorem cutGuidance_succ (n : Nat) (guidance : List Char) :
    cutGuidance size r maxBytes (n + 1) guidance =
      if guidance.length ≤ 1 then guidance
      else if size (r.withGuidance (String.ofList (shorter guidance))) ≤ maxBytes then
        shorter guidance
      else cutGuidance size r maxBytes n (shorter guidance) := by
  rw [cutGuidance]
  simp only [le_boundaryCut_iff, takeBytes_boundaryCut]
  cases guidance with
  | nil => rfl
  | cons c rest =>
    have hpos := c.utf8Size_pos
    rw [if_neg (by rw [utf8Len_cons]; omega)]

theorem cutGuidance_run (guidance : List Char) :
    Runs (fun g => maxBytes < size (r.withGuidance (String.ofList g)) ∧ 1 < g.length) shorter
      guidance (if size (r.withGuidance (String.ofList guidance)) ≤ maxBytes then guidance
        else cutGuidance size r maxBytes guidance.length guidance) := by
  refine Runs.of_fuel (f := fun n g => if size (r.withGuidance (String.ofList g)) ≤ maxBytes
    then g else cutGuidance size r maxBytes n g) List.length (fun g => ?_) (fun n g => ?_)
    (fun g h => shorter_length_lt h.2) guidance.length guidance (Nat.le_refl _)
  · exact ite_self g
  · rw [cutGuidance_succ]
    by_cases hfits : size (r.withGuidance (String.ofList g)) ≤ maxBytes
    · rw [if_pos hfits, if_neg fun h => Nat.not_lt.mpr hfits h.1]
    · rw [if_neg hfits]
      by_cases hlen : g.length ≤ 1
      · rw [if_pos hlen, if_neg fun h => Nat.not_lt.mpr hlen h.2]
      · have hturn : maxBytes < size (r.withGuidance (String.ofList g)) ∧ 1 < g.length :=
          ⟨Nat.not_le.mp hfits, Nat.not_le.mp hlen⟩
        rw [if_neg hlen, if_pos hturn]

def fittedTrace : List TraceEntry :=
  cutTail size (fun l => r.kept l r.payload.candidatesRuledOut r.payload.candidatesRuledIn
    r.payload.guidance) maxBytes r.payload.trace.length r.payload.trace

def fittedRuledOut : List CandidateEvidence :=
  cutTail size (fun l => r.kept (r.fittedTrace size maxBytes) l r.payload.candidatesRuledIn
    r.payload.guidance) maxBytes r.payload.candidatesRuledOut.length r.payload.candidatesRuledOut

def fittedRuledIn : List CandidateEvidence :=
  cutTail size (fun l => r.kept (r.fittedTrace size maxBytes) (r.fittedRuledOut size maxBytes) l
    r.payload.guidance) maxBytes r.payload.candidatesRuledIn.length r.payload.candidatesRuledIn

def fittedLists : EscalationReport :=
  r.kept (r.fittedTrace size maxBytes) (r.fittedRuledOut size maxBytes)
    (r.fittedRuledIn size maxBytes) r.payload.guidance

theorem fitTo_of_over (h : maxBytes < size r) :
    r.fitTo size maxBytes = (r.fittedLists size maxBytes).withGuidance (String.ofList
      (if size ((r.fittedLists size maxBytes).withGuidance
          (String.ofList r.payload.guidance.toList)) ≤ maxBytes then r.payload.guidance.toList
        else cutGuidance size (r.fittedLists size maxBytes) maxBytes
          r.payload.guidance.toList.length r.payload.guidance.toList)) := by
  have hself : (r.fittedLists size maxBytes).withGuidance
      (String.ofList r.payload.guidance.toList) = r.fittedLists size maxBytes := by
    rw [String.ofList_toList]
    rfl
  rw [fitTo, if_neg (Nat.not_le.mpr h), hself]
  change (if size (r.fittedLists size maxBytes) ≤ maxBytes then r.fittedLists size maxBytes else
    (r.fittedLists size maxBytes).withGuidance (String.ofList (cutGuidance size
      (r.fittedLists size maxBytes) maxBytes r.payload.guidance.toList.length
      r.payload.guidance.toList))) = _
  by_cases hfits : size (r.fittedLists size maxBytes) ≤ maxBytes
  · rw [if_pos hfits, if_pos hfits, hself]
  · rw [if_neg hfits, if_neg hfits]

theorem fitTo_run : FitRun size maxBytes r (r.fitTo size maxBytes) := by
  rcases Nat.lt_or_ge maxBytes (size r) with hover | hfits
  · rw [fitTo_of_over size maxBytes r hover]
    exact .cut hover (cutTail_run ..) (cutTail_run ..) (cutTail_run ..)
      (cutGuidance_run size maxBytes (r.fittedLists size maxBytes) r.payload.guidance.toList)
  · have hself : r.fitTo size maxBytes = r := if_pos hfits
    rw [hself]
    exact .fits hfits

end Loops

section Valid

variable [RustStd]

structure WellFormed (r : EscalationReport) : Prop where
  threshold : isUnitInterval r.gate.threshold = true
  observed : isUnitInterval r.gate.observed = true
  kind : r.payload.question.kind ≠ ""
  text : r.payload.question.text ≠ ""
  guidance : r.payload.guidance ≠ ""
  modelId : r.engine.modelId ≠ ""
  engineSemver : r.engine.engineSemver ≠ ""
  evidence : ∀ e ∈ r.payload.candidatesRuledIn ++ r.payload.candidatesRuledOut, e.why ≠ ""
  partialAnswer : ∀ a, r.payload.partialAnswer = some a → isUnitInterval a.probability = true

omit [RustStd] in
theorem refused_else_ok {p : Prop} [Decidable p] {reason : String} {rest : CoreResult Unit} :
    (if p then invalid reason else rest) = .ok () ↔ ¬p ∧ rest = .ok () := by
  by_cases h : p <;> simp [h, invalid]

theorem validate_ok_iff (r : EscalationReport) : r.validate = .ok () ↔ r.WellFormed := by
  have hevidence (l : List CandidateEvidence) :
      l.find? (fun e => e.why = "") = none ↔ ∀ e ∈ l, e.why ≠ "" := by
    simp [List.find?_eq_none]
  rw [validate]
  simp only [refused_else_ok]
  constructor
  · rintro ⟨h1, h2, -, h4, h5, h6, h7, h8, h9⟩
    cases hfind : (r.payload.candidatesRuledIn ++ r.payload.candidatesRuledOut).find?
        fun e => e.why = "" with
    | some e =>
      rw [hfind] at h9
      cases h9
    | none =>
      rw [hfind] at h9
      refine ⟨by simpa using h1, by simpa using h2, h4, h5, h6, h7, h8, (hevidence _).mp hfind,
        fun a ha => ?_⟩
      rw [ha] at h9
      simpa using (refused_else_ok.mp h9).1
  · intro h
    refine ⟨by simp [h.threshold], by simp [h.observed], by simp, h.kind, h.text, h.guidance,
      h.modelId, h.engineSemver, ?_⟩
    rw [(hevidence _).mpr h.evidence]
    cases ha : r.payload.partialAnswer with
    | none => rfl
    | some a => simp [h.partialAnswer a ha]

end Valid

section Fitted

variable (size : EscalationReport → Nat) (maxBytes : Nat) (r out : EscalationReport)

/-- Nothing is left to cut: the lists are empty and the guidance has one character at most. -/
structure Exhausted : Prop where
  trace : r.payload.trace = []
  ruledOut : r.payload.candidatesRuledOut = []
  ruledIn : r.payload.candidatesRuledIn = []
  guidance : r.payload.guidance.toList.length ≤ 1

/-- A report fitted to a budget. It is within the budget or has nothing left to cut, one that fits
already stays as it is, and otherwise only the four parts and the flag differ (`rest`). Each part
is a prefix of what it was. The trace is cut first, then the candidates ruled out, those ruled in
and the guidance, each only when those before it are used up (`Later`), and with a longer prefix
the report would be too large (`Needed`; the guidance loses an eighth of its bytes at a time, down
to one character). It is marked truncated when it was already or when it did not fit. -/
structure Fitted : Prop where
  bounded : size out ≤ maxBytes ∨ out.Exhausted
  untouched : size r ≤ maxBytes → out = r
  rest : out = { r with payload := { r.payload with
    trace := out.payload.trace, candidatesRuledOut := out.payload.candidatesRuledOut,
    candidatesRuledIn := out.payload.candidatesRuledIn, guidance := out.payload.guidance,
    truncated := out.payload.truncated } }
  traceInitial : out.payload.trace <+: r.payload.trace
  ruledOutInitial : out.payload.candidatesRuledOut <+: r.payload.candidatesRuledOut
  ruledInInitial : out.payload.candidatesRuledIn <+: r.payload.candidatesRuledIn
  guidanceInitial : out.payload.guidance.toList <+: r.payload.guidance.toList
  ruledOutLater : out.payload.candidatesRuledOut ≠ r.payload.candidatesRuledOut →
    out.payload.trace = []
  ruledInLater : out.payload.candidatesRuledIn ≠ r.payload.candidatesRuledIn →
    out.payload.trace = [] ∧ out.payload.candidatesRuledOut = []
  guidanceLater : out.payload.guidance ≠ r.payload.guidance → out.payload.trace = [] ∧
    out.payload.candidatesRuledOut = [] ∧ out.payload.candidatesRuledIn = []
  traceNeeded : ∀ l, l <+: r.payload.trace → out.payload.trace.length < l.length →
    maxBytes < size (r.kept l r.payload.candidatesRuledOut r.payload.candidatesRuledIn
      r.payload.guidance)
  ruledOutNeeded : ∀ l, l <+: r.payload.candidatesRuledOut →
    out.payload.candidatesRuledOut.length < l.length →
    maxBytes < size (r.kept out.payload.trace l r.payload.candidatesRuledIn r.payload.guidance)
  ruledInNeeded : ∀ l, l <+: r.payload.candidatesRuledIn →
    out.payload.candidatesRuledIn.length < l.length →
    maxBytes < size (r.kept out.payload.trace out.payload.candidatesRuledOut l r.payload.guidance)
  guidanceNeeded : ∃ k, out.payload.guidance.toList = shorter^[k] r.payload.guidance.toList ∧
    ∀ j < k, maxBytes < size (r.kept out.payload.trace out.payload.candidatesRuledOut
      out.payload.candidatesRuledIn (String.ofList (shorter^[j] r.payload.guidance.toList))) ∧
      1 < (shorter^[j] r.payload.guidance.toList).length
  marked : out.payload.truncated = true ↔ r.payload.truncated = true ∨ maxBytes < size r

variable {size maxBytes r out}

theorem kept_self (h : r.payload.truncated = true) :
    r.kept r.payload.trace r.payload.candidatesRuledOut r.payload.candidatesRuledIn
      r.payload.guidance = r := by
  obtain ⟨reason, gate, action, engine, payload⟩ := r
  obtain ⟨question, summary, ruledIn, ruledOut, answer, trace, guidance, truncated⟩ := payload
  cases h
  rfl

section Stages

variable {trace : List TraceEntry} {ruledOut ruledIn : List CandidateEvidence}
  (htrace : LongestWithin (fun l => maxBytes < size (r.kept l r.payload.candidatesRuledOut
    r.payload.candidatesRuledIn r.payload.guidance)) r.payload.trace trace)
  (hout : LongestWithin (fun l => maxBytes < size (r.kept trace l r.payload.candidatesRuledIn
    r.payload.guidance)) r.payload.candidatesRuledOut ruledOut)
  (hin : LongestWithin (fun l => maxBytes < size (r.kept trace ruledOut l r.payload.guidance))
    r.payload.candidatesRuledIn ruledIn)

include htrace hout

theorem trace_of_over (h : maxBytes < size (r.kept trace ruledOut r.payload.candidatesRuledIn
    r.payload.guidance)) : trace = [] := by
  by_contra hne
  have hwithin := htrace.within_or_nil.resolve_right hne
  rw [hout.eq_self hwithin] at h
  exact hwithin h

include hin

theorem lists_of_over (h : maxBytes < size (r.kept trace ruledOut ruledIn r.payload.guidance)) :
    trace = [] ∧ ruledOut = [] ∧ ruledIn = [] := by
  have hruledIn : ruledIn = [] := hin.within_or_nil.resolve_left (not_not_intro h)
  have hfull : maxBytes < size (r.kept trace ruledOut r.payload.candidatesRuledIn
      r.payload.guidance) := by
    by_contra hwithin
    rw [hin.eq_self hwithin] at h
    exact hwithin h
  exact ⟨trace_of_over htrace hout hfull, hout.within_or_nil.resolve_left (not_not_intro hfull),
    hruledIn⟩

end Stages

/-- The guidance loop starts only when the lists are used up, and each list loop only when the
lists before it are. -/
theorem FitRun.fitted (h : FitRun size maxBytes r out) : Fitted size maxBytes r out := by
  cases h with
  | fits hfits =>
    have hnone {α : Type} {p : List α → Prop} (m : List α) :
        ∀ l, l <+: m → m.length < l.length → p l :=
      fun l hl hlt => absurd hl.length_le (Nat.not_le.mpr hlt)
    exact ⟨.inl hfits, fun _ => rfl, rfl, List.prefix_rfl, List.prefix_rfl, List.prefix_rfl,
      List.prefix_rfl, fun h => absurd rfl h, fun h => absurd rfl h, fun h => absurd rfl h,
      hnone _, hnone _, hnone _, ⟨0, rfl, fun j hj => absurd hj (Nat.not_lt_zero j)⟩,
      by simp [Nat.not_lt.mpr hfits]⟩
  | @cut trace ruledOut ruledIn guidance hover htrace hout hin hguidance =>
    have ht := LongestWithin.of_runs htrace
    have ho := LongestWithin.of_runs hout
    have hi := LongestWithin.of_runs hin
    obtain ⟨k, hk, hturns⟩ := hguidance.turns
    have hlists : guidance ≠ r.payload.guidance.toList →
        trace = [] ∧ ruledOut = [] ∧ ruledIn = [] := by
      intro hne
      cases k with
      | zero => exact absurd hk.symm hne
      | succ k =>
        have hstart := (hturns 0 (Nat.succ_pos k)).1
        rw [Function.iterate_zero_apply, String.ofList_toList] at hstart
        exact lists_of_over ht ho hi hstart
    have hinitial : guidance <+: r.payload.guidance.toList :=
      hguidance.invariant (I := fun g => g <+: r.payload.guidance.toList)
        (fun g hg _ => (shorter_initial g).trans hg) List.prefix_rfl
    refine {
      bounded := ?_
      untouched := fun hfits => absurd hover (Nat.not_lt.mpr hfits)
      rest := rfl
      traceInitial := ht.initial
      ruledOutInitial := ho.initial
      ruledInInitial := hi.initial
      guidanceInitial := by simpa [kept] using hinitial
      ruledOutLater := fun hne => by_contra fun htr =>
        hne (ho.eq_self (ht.within_or_nil.resolve_right htr))
      ruledInLater := fun hne => ?_
      guidanceLater := fun hne => hlists fun he => hne (by simp [kept, he])
      traceNeeded := ht.longer
      ruledOutNeeded := ho.longer
      ruledInNeeded := hi.longer
      guidanceNeeded := ⟨k, by simp [kept, hk], hturns⟩
      marked := ⟨fun _ => .inr hover, fun _ => rfl⟩ }
    · rcases Nat.lt_or_ge maxBytes (size (r.kept trace ruledOut ruledIn
        (String.ofList guidance))) with hlt | hle
      · right
        have hlen : guidance.length ≤ 1 := Nat.not_lt.mp fun h => hguidance.exit ⟨hlt, h⟩
        have hstart : maxBytes < size (r.kept trace ruledOut ruledIn r.payload.guidance) := by
          cases k with
          | zero =>
            rw [← hk, Function.iterate_zero_apply, String.ofList_toList] at hlt
            exact hlt
          | succ k =>
            have hfirst := (hturns 0 (Nat.succ_pos k)).1
            rwa [Function.iterate_zero_apply, String.ofList_toList] at hfirst
        obtain ⟨h1, h2, h3⟩ := lists_of_over ht ho hi hstart
        exact ⟨h1, h2, h3, by simpa [kept] using hlen⟩
      · exact .inl hle
    · have hfull : maxBytes < size (r.kept trace ruledOut r.payload.candidatesRuledIn
          r.payload.guidance) := by
        by_contra hwithin
        exact hne (hi.eq_self hwithin)
      exact ⟨trace_of_over ht ho hfull, ho.within_or_nil.resolve_left (not_not_intro hfull)⟩

theorem FitRun.of_exhausted (hover : maxBytes < size r) (h : r.Exhausted)
    (hmarked : r.payload.truncated = true) : FitRun size maxBytes r r := by
  have hrun : FitRun size maxBytes r (r.kept r.payload.trace r.payload.candidatesRuledOut
      r.payload.candidatesRuledIn (String.ofList r.payload.guidance.toList)) :=
    .cut hover (.stop fun hg => hg.2 h.trace) (.stop fun hg => hg.2 h.ruledOut)
      (.stop fun hg => hg.2 h.ruledIn) (.stop fun hg => Nat.not_lt.mpr h.guidance hg.2)
  rwa [String.ofList_toList, kept_self hmarked] at hrun

theorem Fitted.again (h : Fitted size maxBytes r out) : FitRun size maxBytes out out := by
  rcases Nat.lt_or_ge maxBytes (size out) with hover | hfits
  · have hr : maxBytes < size r := Nat.lt_of_not_le fun hle => by
      rw [h.untouched hle] at hover
      exact Nat.not_lt.mpr hle hover
    exact .of_exhausted hover (h.bounded.resolve_left (Nat.not_le.mpr hover))
      (h.marked.mpr (.inr hr))
  · exact .fits hfits

theorem Fitted.wellFormed [RustStd] (h : Fitted size maxBytes r out) (hr : r.WellFormed) :
    out.WellFormed := by
  have hrest := h.rest
  refine {
    threshold := by rw [hrest]; exact hr.threshold
    observed := by rw [hrest]; exact hr.observed
    kind := by rw [hrest]; exact hr.kind
    text := by rw [hrest]; exact hr.text
    guidance := ?_
    modelId := by rw [hrest]; exact hr.modelId
    engineSemver := by rw [hrest]; exact hr.engineSemver
    evidence := ?_
    partialAnswer := by rw [hrest]; exact hr.partialAnswer }
  · obtain ⟨k, hk, hturns⟩ := h.guidanceNeeded
    have hne : out.payload.guidance.toList ≠ [] := by
      rw [hk]
      cases k with
      | zero => simpa using hr.guidance
      | succ k =>
        rw [Function.iterate_succ_apply']
        exact shorter_ne_nil (hturns k (Nat.lt_succ_self k)).2
    simpa using hne
  · intro e he
    refine hr.evidence e ?_
    rcases List.mem_append.mp he with he | he
    · exact List.mem_append_left _ (h.ruledInInitial.subset he)
    · exact List.mem_append_right _ (h.ruledOutInitial.subset he)

end Fitted

section Serialized

variable (number : JsonNumber → Nat) (r : EscalationReport)

/-- The bytes of the report written with nothing between its parts. -/
def serializedLen : Nat := Json.compactLen number r.serialize.1

def flagged : EscalationReport := { r with payload := { r.payload with truncated := true } }

theorem payload_le_marked (p : EscalationPayload) :
    Json.compactLen number p.serialize.1 ≤
      Json.compactLen number ({ p with truncated := true } : EscalationPayload).serialize.1 := by
  rw [EscalationPayload.serialize, EscalationPayload.serialize,
    Json.compactLen_struct number p.fields_nodup,
    Json.compactLen_struct number (EscalationPayload.fields_nodup _)]
  cases h : p.truncated with
  | true => simp [EscalationPayload.fields, h]
  | false =>
    simp only [EscalationPayload.fields, h, Json.Value.skipIf, if_true, if_false,
      List.filterMap_cons, Option.map_some, Option.map_none, List.filterMap_nil, List.sum_cons,
      List.sum_nil, Bool.true_eq_false]
    omega

theorem serializedLen_le_flagged : r.serializedLen number ≤ r.flagged.serializedLen number := by
  have hnodup (r : EscalationReport) : (r.fields.map Prod.fst).Nodup := by
    have hnames : ["reason", "gate", "requested_action", "engine", "payload"].Nodup := by decide
    exact hnames
  have hpayload := payload_le_marked number r.payload
  rw [serializedLen, serializedLen, serialize, serialize, Json.compactLen_struct number (hnodup _),
    Json.compactLen_struct number (hnodup _)]
  simp only [fields, flagged, List.filterMap_cons, Option.map_some, List.filterMap_nil,
    List.sum_cons, List.sum_nil, Json.compactField]
  omega

def CutFrom (r out : EscalationReport) : Prop :=
  out.payload.trace ≠ r.payload.trace ∨
    out.payload.candidatesRuledOut ≠ r.payload.candidatesRuledOut ∨
    out.payload.candidatesRuledIn ≠ r.payload.candidatesRuledIn ∨
    out.payload.guidance ≠ r.payload.guidance

instance (r out : EscalationReport) : Decidable (r.CutFrom out) :=
  inferInstanceAs (Decidable (_ ∨ _))

variable {number r} in
theorem Fitted.cutFrom_or_exhausted {maxBytes : Nat} {out : EscalationReport}
    (h : Fitted (serializedLen number) maxBytes r out) (hover : maxBytes < r.serializedLen number) :
    r.CutFrom out ∨ r.Exhausted := by
  by_cases hcut : r.CutFrom out
  · exact .inl hcut
  · right
    simp only [CutFrom, not_or, not_not] at hcut
    obtain ⟨htrace, hout, hin, hguidance⟩ := hcut
    have hself : out = r.flagged := by
      rw [h.rest, htrace, hout, hin, hguidance, h.marked.mpr (.inr hover)]
      rfl
    have hlarge : maxBytes < out.serializedLen number :=
      hself ▸ Nat.lt_of_lt_of_le hover (serializedLen_le_flagged number r)
    have hnothing := h.bounded.resolve_left (Nat.not_le.mpr hlarge)
    exact ⟨htrace ▸ hnothing.trace, hout ▸ hnothing.ruledOut, hin ▸ hnothing.ruledIn,
      hguidance ▸ hnothing.guidance⟩

/-- Fitting ends with the one report that the loops of the source lead to; a well formed report
stays well formed, the mark says that the report was over its budget, and fitting again changes
nothing. -/
theorem fitTo_shrinks [RustStd] (maxBytes : Nat) :
    (∀ out, FitRun (serializedLen number) maxBytes r out ↔
      out = r.fitTo (serializedLen number) maxBytes) ∧
    Fitted (serializedLen number) maxBytes r (r.fitTo (serializedLen number) maxBytes) ∧
    (r.validate = .ok () → (r.fitTo (serializedLen number) maxBytes).validate = .ok ()) ∧
    (maxBytes < r.serializedLen number →
      r.CutFrom (r.fitTo (serializedLen number) maxBytes) ∨ r.Exhausted) ∧
    (r.fitTo (serializedLen number) maxBytes).fitTo (serializedLen number) maxBytes =
      r.fitTo (serializedLen number) maxBytes := by
  have hrun (r : EscalationReport) := fitTo_run (serializedLen number) maxBytes r
  have hfitted := (hrun r).fitted
  refine ⟨fun out => ⟨fun h => h.unique _ _ (hrun r), ?_⟩, hfitted, fun h => ?_,
    hfitted.cutFrom_or_exhausted, ?_⟩
  · intro hout
    rw [hout]
    exact hrun r
  · exact (validate_ok_iff _).mpr (hfitted.wellFormed ((validate_ok_iff r).mp h))
  · exact (hrun _).unique _ _ hfitted.again

end Serialized

section Samples

attribute [local instance] plainStd

def handoffWith (guidance : String) : EscalationReport :=
  { handoff with payload := { handoff.payload with guidance, truncated := false } }

/-- The floats of the sample are written with one digit after the point. -/
def oneDecimal : JsonNumber → Nat
  | .int value => (toString value).length
  | .float _ => 3

theorem fitTo_marks_uncut :
    ((handoffWith "?").validate = .ok () ∧
      ((handoffWith "?").fitTo (serializedLen oneDecimal) 1).payload.truncated = true ∧
      ¬(handoffWith "?").CutFrom ((handoffWith "?").fitTo (serializedLen oneDecimal) 1)) ∧
    ((handoffWith "").fitTo (serializedLen oneDecimal) 65536).validate ≠ .ok () := by
  decide +kernel

end Samples

end EscalationReport

end OpenCodifier
