import LiveTypes.Proofs.Assignability
import LiveTypes.Proofs.Selections

/-!
# Relation checks report the violations

A check infers the types of its sides, compares them along the graph and has a violation worded. With a
host whose rules look at nothing but the value and whose providers look at nothing but the two types, what
a check reports is a function of the engine's state: `Oracle.findings`. The work of a check comes to it
step by step, from its last step backwards.
-/
namespace LiveTypes

variable {ν : Type}

/-! ## Comparisons along the graph -/

/-- The relation between two types, as the edges of the graph have it. -/
def Graph.Related (g : Graph) : Relation → Ty → Ty → Prop
  | .equal, a, b => a = b
  | .assignable, a, b => a = b ∨ Relation.TransGen (Converts g.edges) a b

theorem Graph.compare_eq_none (g : Graph) (relation : Relation) (a b : Ty) :
    g.compare relation a b = none ↔ g.Related relation a b := by
  cases relation with
  | equal => by_cases h : a = b <;> simp [compare, Related, h]
  | assignable =>
    rw [compare_assignable_eq_none, Relation.reflTransGen_iff_eq_or_transGen, Related, eq_comm]

/-- A mismatch is about the two types that were compared, and has no parts. -/
theorem Graph.compare_eq_some {g : Graph} {relation : Relation} {a b : Ty} {m : Mismatch}
    (h : g.compare relation a b = some m) :
    m.relation = relation ∧ m.actual = a ∧ m.expected = b ∧ m.parts = [] := by
  unfold compare at h
  split at h
  all_goals
    split at h
    · cases h
    · cases h
      exact ⟨rfl, rfl, rfl, rfl⟩

/-! ## What a check comes to -/

/-- The sentence that tells how two types violate a relation that must hold, or one that must not. -/
def violationSentence (a b : Ty) : Relation → Bool → String
  | .assignable, false => "The type '" ++ a.identifier ++ "' is not assignable to the type '" ++ b.identifier ++ "'."
  | .assignable, true => "The type '" ++ a.identifier ++ "' is assignable to the type '" ++ b.identifier ++ "'."
  | .equal, false => "The type '" ++ a.identifier ++ "' is not equal to the type '" ++ b.identifier ++ "'."
  | .equal, true => "The type '" ++ a.identifier ++ "' is equal to the type '" ++ b.identifier ++ "'."

theorem violationMessage_eq (a b : Ty) (relation : Relation) (negated : Bool) :
    Engine.violationMessage a b relation negated = violationSentence a b relation negated := by
  have joined {middle : String}
      (h : "' is " ++ ((if negated then "" else "not ") ++ (relation.phrase ++ " the type '")) = middle) :
      Engine.violationMessage a b relation negated =
        "The type '" ++ a.identifier ++ middle ++ b.identifier ++ "'." := by
    unfold Engine.violationMessage
    rw [← h]
    simp only [String.append_assoc]
  cases relation <;> cases negated <;> exact joined (by decide)

/-- The report of a violation by two types with the given details, on the value that they name or else on
the actual side. Without a value there is none. -/
def RelationCheck.report (check : RelationCheck ν) (severity : Severity) (a b : Ty)
    (mismatches : List Mismatch) (details : ProblemDetails ν) : List (Problem ν) :=
  match details.node.or check.actual.node? with
  | none => []
  | some node =>
    [{ node, property := details.property, index := details.index
       severity := details.severity.getD severity
       code := some (Engine.violationCode check.relation check.negated)
       message := details.message.getD (violationSentence a b check.relation check.negated)
       mismatches }]

/-- A problem says what the details say, and the rest by default. -/
structure Problem.Follows (p : Problem ν) (details : ProblemDetails ν) (fallback : Option ν)
    (severity : Severity) (sentence : String) : Prop where
  node : details.node.or fallback = some p.node
  property : p.property = details.property
  index : p.index = details.index
  severity : p.severity = details.severity.getD severity
  message : p.message = details.message.getD sentence

theorem RelationCheck.mem_report {check : RelationCheck ν} {severity : Severity} {a b : Ty}
    {mismatches : List Mismatch} {details : ProblemDetails ν} {p : Problem ν} :
    p ∈ check.report severity a b mismatches details ↔
      p.Follows details check.actual.node? severity (violationSentence a b check.relation check.negated) ∧
      p.code = some (Engine.violationCode check.relation check.negated) ∧ p.mismatches = mismatches := by
  unfold report
  cases hn : details.node.or check.actual.node? with
  | none =>
    constructor
    · intro h
      cases h
    · rintro ⟨h, -⟩
      cases hn.symm.trans h.node
  | some node =>
    rw [List.mem_singleton]
    constructor
    · rintro rfl
      exact ⟨⟨hn, rfl, rfl, rfl, rfl⟩, rfl, rfl⟩
    · rintro ⟨h, hc, hm⟩
      obtain ⟨hnode, hprop, hindex, hsev, hmsg⟩ := h
      obtain ⟨n, property, index, severity, code, message, mismatches⟩ := p
      cases hn.symm.trans hnode
      cases hprop
      cases hindex
      cases hsev
      cases hmsg
      cases hc
      cases hm
      rfl

theorem RelationCheck.length_report_le {check : RelationCheck ν} {severity : Severity} {a b : Ty}
    {mismatches : List Mismatch} {details : ProblemDetails ν} :
    (check.report severity a b mismatches details).length ≤ 1 := by
  unfold report
  split <;> simp

namespace Oracle

/-- The type of a side. -/
def typeOf? (host : Oracle ν) (e : Engine ν) (s : SystemId) : Operand ν → Option Ty
  | .type t => some t
  | .node n => (inferBy (host.outcome · n) [] (e.rulesOf s)).toOption

/-- What is said about a violation by two types; nothing if there is no provider. -/
def wording (host : Oracle ν) (printer : Printer ν) (provider : Option ProviderTag) (a b : Ty) :
    ProblemDetails ν :=
  match provider with
  | some provider => host.details provider ⟨a, printer.type a⟩ ⟨b, printer.type b⟩
  | none => {}

/-- What a check reports, given the types of its sides. -/
def findings (host : Oracle ν) (g : Graph) (system : System ν) (check : RelationCheck ν) :
    Option Ty → Option Ty → List (Problem ν)
  | some a, some b =>
    let mismatch := g.compare check.relation a b
    if mismatch.isNone = check.negated then
      check.report system.config.severity a b mismatch.toList
        (host.wording system.printer check.provider a b)
    else []
  | _, _ => []

theorem mem_findings {host : Oracle ν} {g : Graph} {system : System ν} {check : RelationCheck ν}
    {actual expected : Option Ty} {p : Problem ν} :
    p ∈ host.findings g system check actual expected ↔ ∃ a b, actual = some a ∧ expected = some b ∧
      (g.Related check.relation a b ↔ check.negated = true) ∧
      p ∈ check.report system.config.severity a b (g.compare check.relation a b).toList
        (host.wording system.printer check.provider a b) := by
  match actual, expected with
  | none, _ => simp [findings]
  | some a, none => simp [findings]
  | some a, some b =>
    have hrel : (g.compare check.relation a b).isNone = check.negated ↔
        (g.Related check.relation a b ↔ check.negated = true) := by
      rw [← g.compare_eq_none, ← Option.isNone_iff_eq_none, Bool.eq_iff_iff]
    constructor
    · intro hp
      simp only [findings] at hp
      split at hp
      · rename_i h
        exact ⟨a, b, rfl, rfl, hrel.1 h, hp⟩
      · cases hp
    · rintro ⟨a', b', ha, hb, hviolated, hp⟩
      cases ha
      cases hb
      simp only [findings, if_pos (hrel.2 hviolated)]
      exact hp

theorem length_findings_le {host : Oracle ν} {g : Graph} {system : System ν} {check : RelationCheck ν}
    {actual expected : Option Ty} : (host.findings g system check actual expected).length ≤ 1 := by
  match actual, expected with
  | none, _ => simp [findings]
  | some a, none => simp [findings]
  | some a, some b =>
    simp only [findings]
    split
    · exact RelationCheck.length_report_le
    · simp

/-- What a check that is asked for reports. -/
def reports (host : Oracle ν) (e : Engine ν) (system : System ν) (request : CheckRequest ν) :
    List (Problem ν) :=
  match request.check? with
  | none => []
  | some check =>
    host.findings e.graph system check (host.typeOf? e check.system check.actual)
      (host.typeOf? e check.system check.expected)

/-- A side is there and has this type. A type is its own, and that of a value is inferred. -/
def HasType (host : Oracle ν) (e : Engine ν) (s : SystemId) (side : Option (Operand ν)) (t : Ty) : Prop :=
  match side with
  | none => False
  | some (.type t') => t' = t
  | some (.node n) => e.Gives host.Answers (.infer s n) (.inference (.ok t))

end Oracle

namespace Engine

section Checking

variable {host : Oracle ν} {e : Engine ν} {base : List (Frame ν)} {g : Graph} {system : System ν}
  {check : RelationCheck ν}

theorem reportViolation_comesTo {answers : Frame ν → Answer ν → Prop} (v : Violation ν)
    (details : ProblemDetails ν) (hs : e.stack = base) (hy : e.systems[v.check.system]? = some system) :
    ComesTo answers base
      (.problems (v.check.report system.config.severity v.actual.type v.expected.type v.mismatches details))
      (e.reportViolation v details) := by
  subst hs
  unfold reportViolation RelationCheck.report
  cases hn : details.node.or v.check.actual.node? with
  | none => exact comesTo_finish (e := e.log _) _
  | some node =>
    simp only [hy, violationMessage_eq]
    exact comesTo_finish _

theorem wording_comesTo (provider : ProviderTag) (v : Violation ν) (hs : e.stack = base)
    (hy : e.systems[v.check.system]? = some system) :
    ComesTo host.Answers base
      (.problems (v.check.report system.config.severity v.actual.type v.expected.type v.mismatches
        (host.details provider v.actual v.expected)))
      (e.push (.wording provider v)) := by
  have hpush : (e.push (.wording provider v)).stack = .wording provider v :: base := hs ▸ push_stack _ _
  refine .answer (by simp [hs]) hpush ⟨_, _, Oracle.answers_wording.2 rfl, by simp only [answer, hpush]; rfl⟩
    fun a e' hans ha => ?_
  cases Oracle.answers_wording.1 hans
  simp only [answer, hpush, Option.some.injEq] at ha
  subst ha
  exact reportViolation_comesTo v _ (by rfl) (by simpa using hy)

/-- A violation is reported with what the provider says, if there is one. -/
theorem violated_comesTo {a b : Ty} {mismatches : List Mismatch} (hs : e.stack = base)
    (hy : e.systems[check.system]? = some system) :
    ComesTo host.Answers base
      (.problems (check.report system.config.severity a b mismatches
        (host.wording system.printer check.provider a b)))
      (e.violated system check a b mismatches) := by
  let v : Violation ν := ⟨check, ⟨a, system.printer.type a⟩, ⟨b, system.printer.type b⟩, mismatches⟩
  unfold violated Oracle.wording
  cases check.provider with
  | none => exact reportViolation_comesTo v {} hs hy
  | some provider => exact wording_comesTo provider v hs hy

/-- The types of both sides are known. -/
theorem concludeCheck_comesTo {actual expected : Option Ty} (hs : e.stack = base) (hgr : e.graph = g)
    (hy : e.systems[check.system]? = some system) (hcmp : system.comparisons = .graph) :
    ComesTo host.Answers base (.problems (host.findings g system check actual expected))
      (e.concludeCheck check actual expected) := by
  subst hs hgr
  cases actual with
  | none => exact comesTo_finish _
  | some a =>
    cases expected with
    | none => exact comesTo_finish _
    | some b =>
      -- whatever is logged, the check goes on from a state with the same work and the same systems
      obtain ⟨e₁, hs₁, hy₁, heq⟩ : ∃ e₁, e₁.stack = e.stack ∧ e₁.systems = e.systems ∧
          e.compareIn .graph check.relation a b = (e₁, e.graph.compare check.relation a b) := by
        simp only [compareIn]
        split
        · exact ⟨e.log (.assignable a b), rfl, rfl, rfl⟩
        · exact ⟨e, rfl, rfl, rfl⟩
      simp only [concludeCheck, hy, hcmp, heq, Oracle.findings, ← hs₁]
      cases hn : check.negated <;> cases hm : e.graph.compare check.relation a b
      · exact comesTo_finish (e := e₁.log _) _
      · exact violated_comesTo (e := e₁.log _) rfl (hy₁ ▸ hy)
      · exact violated_comesTo (e := e₁.log _) rfl (hy₁ ▸ hy)
      · exact comesTo_finish (e := e₁.log _) _

/-- A side of a check gets its type, and then the check goes on with it. -/
theorem side_comesTo {begun : Engine ν} {result : Result ν} (s : SystemId) (operand : Operand ν)
    (use : InferenceUse ν) (next : Engine ν → Option Ty → Engine ν) (hs : e.stack = base)
    (htype : ∀ t, operand = .type t → begun = next e (some t))
    (hnode : ∀ n, operand = .node n → begun = e.infer s n use)
    (huse : ∀ e₁ (i : Inference ν) outcome, i.use = use → inferred e₁ i outcome = next e₁ outcome.toOption)
    (hnext : ∀ e₁, e₁.stack = base → e₁.graph = e.graph → e₁.systems = e.systems →
      ComesTo host.Answers base result (next e₁ (host.typeOf? e s operand))) :
    ComesTo host.Answers base result begun := by
  cases operand with
  | type t =>
    rw [htype t rfl]
    exact hnext e hs rfl rfl
  | node n =>
    rw [hnode n rfl]
    have hpush := push_stack e (.inferring ⟨s, n, use, e.rulesOf s, []⟩)
    refine comesTo_inference (hs ▸ hpush) rfl rfl fun {e₁ i} hs₁ hg₁ hy₁ hu => ?_
    rw [huse e₁ i _ hu]
    exact hnext e₁ hs₁ hg₁ hy₁

/-- The type of the actual side is known. -/
theorem relating_comesTo {actual : Option Ty} (hs : e.stack = base) (hgr : e.graph = g)
    (hy : e.systems[check.system]? = some system) (hcmp : system.comparisons = .graph) :
    ComesTo host.Answers base
      (.problems (host.findings g system check actual (host.typeOf? e check.system check.expected)))
      (e.push (.relating check actual)) := by
  have hpush : (e.push (.relating check actual)).stack = .relating check actual :: base := hs ▸ push_stack _ _
  refine .work (by simp [hs]) (by simp only [tick, hpush]; rfl) ?_
  refine side_comesTo (e := (e.push (.relating check actual)).withStack base) check.system check.expected
    (.expected check actual) (fun e₁ expected => e₁.concludeCheck check actual expected) rfl ?_ ?_ ?_ ?_
  · intro t ht
    simp only [relateStep, ht]
  · intro n hn
    simp only [relateStep, hn]
  · intro e₁ i outcome hu
    simp only [inferred, hu]
  · intro e₁ hs₁ hg₁ hy₁
    exact concludeCheck_comesTo hs₁ (hg₁.trans hgr) (hy₁ ▸ hy) hcmp

/-- What a check that the host asks for comes to. -/
theorem gives_relate {request : CheckRequest ν} (hturn : e.hostTurn)
    (hy : e.systems[request.system]? = some system) (hcmp : system.comparisons = .graph) :
    Gives host.Answers e (.relate request) (.problems (host.reports e system request)) := by
  have hk : e.knows (.relate request) = true := decide_eq_true (List.getElem?_eq_some_iff.1 hy).1
  refine ⟨e.relate request, by simp [move?, hturn, hk, call], ?_⟩
  unfold relate Oracle.reports
  cases hc : request.check? with
  | none => exact comesTo_finish _
  | some check =>
    have hsys : e.systems[check.system]? = some system := by
      unfold CheckRequest.check? at hc
      split at hc <;> cases hc
      exact hy
    refine side_comesTo check.system check.actual (.actual check) (fun e₁ actual => e₁.push (.relating check actual))
      rfl ?_ ?_ ?_ ?_
    · intro t ht
      simp only [ht]
    · intro n hn
      simp only [hn]
    · intro e₁ i outcome hu
      simp only [inferred, hu]
    · intro e₁ hs₁ hg₁ hy₁
      have htype : host.typeOf? e check.system check.expected = host.typeOf? e₁ check.system check.expected := by
        cases check.expected <;> simp only [Oracle.typeOf?, rulesOf, hy₁]
      simp only [htype]
      exact relating_comesTo hs₁ hg₁ (hy₁ ▸ hsys) hcmp

end Checking

/-! ## Exactly the violations -/

section Violations

variable {host : Oracle ν} {e : Engine ν} {system : System ν} {request : CheckRequest ν} {a b : Ty}

theorem hasType_iff {side : Option (Operand ν)} {s : SystemId} (hturn : e.hostTurn) (hs : s < e.systems.length) :
    host.HasType e s side a ↔ side.bind (host.typeOf? e s) = some a := by
  match side with
  | none => simp [Oracle.HasType]
  | some (.type t) => simp [Oracle.HasType, Oracle.typeOf?]
  | some (.node n) =>
    have hgives : Gives host.Answers e (.infer s n)
        (.inference (inferBy (host.outcome · n) [] (e.rulesOf s))) :=
      gives_inference hturn (decide_eq_true hs)
    simp only [Oracle.HasType, Oracle.typeOf?, Option.bind_some]
    constructor
    · intro h
      have heq := hgives.unique h
      rw [Result.inference.injEq] at heq
      rw [heq]
      rfl
    · intro h
      cases ho : inferBy (host.outcome · n) [] (e.rulesOf s) with
      | error problems =>
        rw [ho] at h
        cases h
      | ok t =>
        rw [ho] at h hgives
        cases h
        exact hgives

theorem length_reports_le : (host.reports e system request).length ≤ 1 := by
  unfold Oracle.reports
  split
  · simp
  · exact Oracle.length_findings_le

theorem mem_reports {p : Problem ν} : p ∈ host.reports e system request ↔ ∃ a b,
    request.actual.bind (host.typeOf? e request.system) = some a ∧
    request.expected.bind (host.typeOf? e request.system) = some b ∧
    (e.graph.Related request.relation a b ↔ request.negated = true) ∧
    p.Follows (host.wording system.printer request.provider a b) (request.actual.bind Operand.node?)
      system.config.severity (violationSentence a b request.relation request.negated) ∧
    p.code = some (violationCode request.relation request.negated) ∧
    p.mismatches = (e.graph.compare request.relation a b).toList := by
  obtain ⟨s, actual, expected, relation, negated, provider⟩ := request
  match actual, expected with
  | none, _ => simp [Oracle.reports, CheckRequest.check?]
  | some actual, none => simp [Oracle.reports, CheckRequest.check?]
  | some actual, some expected =>
    simp only [Oracle.reports, CheckRequest.check?, Oracle.mem_findings, RelationCheck.mem_report,
      Option.bind_some]

theorem isSome_or_node? {details : ProblemDetails ν} {side : Option (Operand ν)} :
    (details.node.or (side.bind Operand.node?)).isSome ↔ details.node.isSome ∨ ∃ n, side = some (.node n) := by
  rw [Option.isSome_or, Bool.or_eq_true]
  match side with
  | none => simp
  | some (.type t) => simp [Operand.node?]
  | some (.node n) => simp [Operand.node?]

/-- A check is reported if two types violate it and there is a value to report on. -/
theorem reports_ne_nil : host.reports e system request ≠ [] ↔ ∃ a b,
    request.actual.bind (host.typeOf? e request.system) = some a ∧
    request.expected.bind (host.typeOf? e request.system) = some b ∧
    (e.graph.Related request.relation a b ↔ request.negated = true) ∧
    ((host.wording system.printer request.provider a b).node.isSome ∨ ∃ n, request.actual = some (.node n)) := by
  constructor
  · intro hne
    obtain ⟨p, hp⟩ := List.exists_mem_of_ne_nil _ hne
    obtain ⟨a, b, ha, hb, hviolated, hfollows, -⟩ := mem_reports.1 hp
    exact ⟨a, b, ha, hb, hviolated, isSome_or_node?.1 (by rw [hfollows.node]; rfl)⟩
  · rintro ⟨a, b, ha, hb, hviolated, hnode⟩
    obtain ⟨node, hnode⟩ := Option.isSome_iff_exists.1 (isSome_or_node?.2 hnode)
    let details := host.wording system.printer request.provider a b
    let p : Problem ν :=
      { node, property := details.property, index := details.index
        severity := details.severity.getD system.config.severity
        code := some (violationCode request.relation request.negated)
        message := details.message.getD (violationSentence a b request.relation request.negated)
        mismatches := (e.graph.compare request.relation a b).toList }
    have hfollows : p.Follows details (request.actual.bind Operand.node?) system.config.severity
        (violationSentence a b request.relation request.negated) := ⟨hnode, rfl, rfl, rfl, rfl⟩
    exact List.ne_nil_of_mem (mem_reports.2 ⟨a, b, ha, hb, hviolated, hfollows, rfl, rfl⟩)

/-- With types and a value, whether a check reports depends on the relation only. -/
theorem gives_problem_iff (hturn : e.hostTurn) (hy : e.systems[request.system]? = some system)
    (hcmp : system.comparisons = .graph) (ha : request.actual.bind (host.typeOf? e request.system) = some a)
    (hb : request.expected.bind (host.typeOf? e request.system) = some b)
    (hnode : (host.wording system.printer request.provider a b).node.isSome ∨
      ∃ n, request.actual = some (.node n)) :
    (∃ p, Gives host.Answers e (.relate request) (.problems [p])) ↔
      (e.graph.Related request.relation a b ↔ request.negated = true) := by
  have hgives : Gives host.Answers e (.relate request) (.problems (host.reports e system request)) :=
    gives_relate hturn hy hcmp
  constructor
  · rintro ⟨p, hp⟩
    have heq := hgives.unique hp
    rw [Result.problems.injEq] at heq
    obtain ⟨a', b', ha', hb', hviolated, -⟩ := reports_ne_nil.1 (by rw [heq]; simp)
    cases ha'.symm.trans ha
    cases hb'.symm.trans hb
    exact hviolated
  · intro hviolated
    have hne := reports_ne_nil.2 ⟨a, b, ha, hb, hviolated, hnode⟩
    obtain ⟨p, hp⟩ := List.length_eq_one_iff.1
      (Nat.le_antisymm length_reports_le (List.length_pos_iff.2 hne))
    exact ⟨p, hp ▸ hgives⟩

/-- A check reports a problem exactly if its sides are there and have types, the relation between these
types holds although it must not or fails although it must hold, and there is a value to report on. The
problem says what the provider says, and the rest by default. So with types and a value, exactly one of a
check and its negation reports a problem. -/
theorem check_reports_violation (host : Oracle ν) (e : Engine ν) (request : CheckRequest ν)
    (system : System ν) (hturn : e.hostTurn) (hsystem : e.systems[request.system]? = some system)
    (hgraph : system.comparisons = .graph) :
    (∃ problems, Gives host.Answers e (.relate request) (.problems problems) ∧ problems.length ≤ 1 ∧
      (problems ≠ [] ↔ ∃ a b, host.HasType e request.system request.actual a ∧
        host.HasType e request.system request.expected b ∧
        (e.graph.Related request.relation a b ↔ request.negated = true) ∧
        ((host.wording system.printer request.provider a b).node.isSome ∨
          ∃ n, request.actual = some (.node n))) ∧
      ∀ p ∈ problems, ∀ a b, host.HasType e request.system request.actual a →
        host.HasType e request.system request.expected b →
        p.Follows (host.wording system.printer request.provider a b) (request.actual.bind Operand.node?)
          system.config.severity (violationSentence a b request.relation request.negated) ∧
        p.code = some (violationCode request.relation request.negated) ∧
        (request.negated = true → p.mismatches = []) ∧
        (request.negated = false → ∃ m, e.graph.compare request.relation a b = some m ∧
          m.relation = request.relation ∧ m.actual = a ∧ m.expected = b ∧ m.parts = [] ∧
          p.mismatches = [m])) ∧
    ∀ a b, host.HasType e request.system request.actual a →
      host.HasType e request.system request.expected b →
      ((host.wording system.printer request.provider a b).node.isSome ∨
        ∃ n, request.actual = some (.node n)) →
      ∃! negated, ∃ p, Gives host.Answers e (.relate { request with negated }) (.problems [p]) := by
  have hlt : request.system < e.systems.length := (List.getElem?_eq_some_iff.1 hsystem).1
  simp only [hasType_iff hturn hlt]
  refine ⟨⟨host.reports e system request, gives_relate hturn hsystem hgraph, length_reports_le,
    reports_ne_nil, ?_⟩, ?_⟩
  · intro p hp a b ha hb
    obtain ⟨a', b', ha', hb', hviolated, hfollows, hcode, hmismatches⟩ := mem_reports.1 hp
    cases ha'.symm.trans ha
    cases hb'.symm.trans hb
    rw [← e.graph.compare_eq_none] at hviolated
    refine ⟨hfollows, hcode, fun hneg => ?_, fun hneg => ?_⟩
    · rw [hmismatches, hviolated.2 hneg]
      rfl
    · cases hm : e.graph.compare request.relation a b with
      | none =>
        rw [hviolated.1 hm] at hneg
        cases hneg
      | some m =>
        obtain ⟨hr, hma, hmb, hparts⟩ := Graph.compare_eq_some hm
        exact ⟨m, rfl, hr, hma, hmb, hparts, by rw [hmismatches, hm]; rfl⟩
  · intro a b ha hb hnode
    have hiff (negated : Bool) :
        (∃ p, Gives host.Answers e (.relate { request with negated }) (.problems [p])) ↔
          (e.graph.Related request.relation a b ↔ negated = true) :=
      gives_problem_iff hturn hsystem hgraph ha hb hnode
    simp only [hiff]
    by_cases hrel : e.graph.Related request.relation a b
    · exact ⟨true, by simp [hrel], by simp [hrel]⟩
    · exact ⟨false, by simp [hrel], by simp [hrel]⟩

/-- A value of an inferred type must be assignable to a type from which only the way back leads. One check
has a provider that gives the message and leaves the rest, and one has none. -/
theorem check_reports_way_back :
    let int : Ty := ⟨1, "int", "Int"⟩
    let text : Ty := ⟨2, "text", "Text"⟩
    let host : Oracle Nat := ⟨⟨fun _ _ => .inferred int, fun _ => int⟩, fun _ => int, fun _ _ => .type int,
      fun _ a b => { message := some (a.printed ++ " is no " ++ b.printed) }⟩
    let request (provider : Option ProviderTag) : CheckRequest Nat :=
      ⟨0, some (.node 7), some (.type text), .assignable, false, provider⟩
    ∃ e : Engine Nat, e.hostTurn ∧ ⟨text, int, .subType⟩ ∈ e.graph.edges ∧
      (∃ p, Gives host.Answers e (.relate (request (some ⟨0⟩))) (.problems [p]) ∧
        p.node = 7 ∧ p.message = "Int is no Text" ∧ p.severity = .error ∧ p.mismatches.length = 1) ∧
      ∃ p, Gives host.Answers e (.relate (request none)) (.problems [p]) ∧
        p.node = 7 ∧ p.message = "The type 'int' is not assignable to the type 'text'." := by
  intro int text host request
  have hcheck : ((run? ({} : Engine Nat)
      [.call (.addSystem {} ⟨Ty.name, fun _ _ => ""⟩ .graph), .call (.addType int "int"), .work, .work, .work,
        .call (.addType text "text"), .work, .work, .work, .call (.addEdge ⟨text, int, .subType⟩), .work, .work,
        .work, .call (.addRule 0 ⟨0⟩ "any" none), .work, .work]).bind fun e =>
      e.systems[0]?.map fun system => decide (e.atRest ∧ system.comparisons matches .graph ∧
        system.config.severity = .error ∧ system.printer.type int = "Int" ∧ system.printer.type text = "Text" ∧
        host.typeOf? e 0 (.node 7) = some int ∧ e.graph.edges = [⟨text, int, .subType⟩] ∧
        (e.graph.compare .assignable int text).isSome)) = some true := by
    decide +kernel
  obtain ⟨e, -, hcheck⟩ := Option.bind_eq_some_iff.1 hcheck
  obtain ⟨system, hsystem, hcheck⟩ := Option.map_eq_some_iff.1 hcheck
  obtain ⟨hrest, hgraph, hsev, hint, htext, htype, hedge, hcompare⟩ := of_decide_eq_true hcheck
  have hgraph : system.comparisons = .graph := by
    cases hc : system.comparisons with
    | graph => rfl
    | custom => simp [hc] at hgraph
  have hturn : e.hostTurn := by simp [hostTurn, hrest]
  have hlt : 0 < e.systems.length := (List.getElem?_eq_some_iff.1 hsystem).1
  have hviolated : e.graph.Related .assignable int text ↔ false = true := by
    rw [← e.graph.compare_eq_none, ← Option.isNone_iff_eq_none]
    simp [Option.isNone_eq_false_iff.2 hcompare]
  have reported (provider : Option ProviderTag) : ∃ p,
      Gives host.Answers e (.relate (request provider)) (.problems [p]) ∧
      p.Follows (host.wording system.printer provider int text) (some 7) .error
        "The type 'int' is not assignable to the type 'text'." ∧ p.mismatches.length = 1 := by
    have ha : host.HasType e 0 (request provider).actual int := (hasType_iff hturn hlt).2 htype
    have hb : host.HasType e 0 (request provider).expected text := rfl
    obtain ⟨⟨problems, hgives, hone, hiff, hall⟩, -⟩ :=
      check_reports_violation host e (request provider) system hturn hsystem hgraph
    have hne : problems ≠ [] := hiff.2 ⟨int, text, ha, hb, hviolated, .inr ⟨7, rfl⟩⟩
    obtain ⟨p, rfl⟩ := List.length_eq_one_iff.1 (Nat.le_antisymm hone (List.length_pos_iff.2 hne))
    obtain ⟨hfollows, -, -, hplain⟩ := hall p List.mem_cons_self int text ha hb
    obtain ⟨m, -, -, -, -, -, hm⟩ := hplain rfl
    exact ⟨p, hgives, hsev ▸ hfollows, by simp [hm]⟩
  obtain ⟨p, hgives, hfollows, hone⟩ := reported (some ⟨0⟩)
  obtain ⟨q, hgives', hfollows', -⟩ := reported none
  have hmessage : p.message = system.printer.type int ++ " is no " ++ system.printer.type text := hfollows.message
  refine ⟨e, hturn, by simp [hedge], ⟨p, hgives, (Option.some.inj hfollows.node).symm, ?_, hfollows.severity, hone⟩,
    q, hgives', (Option.some.inj hfollows'.node).symm, hfollows'.message⟩
  rw [hmessage, hint, htext]
  rfl

end Violations
end Engine
end LiveTypes
