import LiveTypes.Proofs.Quiet
import LiveTypes.Proofs.RoundWork
import LiveTypes.Proofs.Selections
import Mathlib.Algebra.Ring.Nat

/-!
# All work comes to an end

While the host only answers, the engine cannot go on for ever, whatever is under way. A step may well make
more work: the removal of a type begins passes, a pass makes references start over, a reference that takes a
type makes others try. But there is an order among these kinds of work, and each step has less of one kind
left and no more of those before it. `Engine.toil` counts them in this order, and what a step puts on the
stack in place of its top frame decides alone how the counts change.
-/
namespace LiveTypes

variable {ν : Type}

/-! ## What is ahead -/

/-- How far the check is from its end that an inference is for. -/
def InferenceUse.stage : InferenceUse ν → Nat
  | .actual _ => 3
  | .expected _ _ => 1
  | _ => 0

namespace Frame

/-- How many passes over the graph's listeners a removal has yet to begin. -/
def passesAhead : Frame ν → Nat
  | .typeRemoval _ _ edges => edges.length + 1
  | _ => 0

/-- How many listeners of the graph have yet to be called. -/
def graphCallsAhead : Frame ν → Nat
  | .graphPass _ queue => queue.length
  | _ => 0

/-- How many rules have yet to be removed and how many references to start over. -/
def sequelsAhead : Frame ν → Nat
  | .ruleRemoval _ rules => rules.length
  | .restart _ => 1
  | _ => 0

/-- How many listeners of a rule set or of a reference have yet to be called. -/
def callsAhead : Frame ν → Nat
  | .rulePass _ _ queue => queue.length
  | .referencePass _ _ queue => queue.length
  | _ => 0

/-- How far a relation check or a validation is from its end. -/
def stage : Frame ν → Nat
  | .inferring i => i.use.stage
  | .running _ i => i.use.stage
  | .relating _ _ => 2
  | .validating v => 2 * v.checks.length + 1
  | .checking _ v => 2 * v.checks.length + 2
  | _ => 0

/-- What is left to do at a frame for the host alone: a check or a validation, or else a selection. -/
def weight (f : Frame ν) : Nat ×ₗ Nat ×ₗ Nat := toLex (f.stage, f.effort)

/-- What some frames have ahead together. -/
def total (ahead : Frame ν → Nat) (frames : List (Frame ν)) : Nat := (frames.map ahead).sum

@[simp] theorem total_nil (ahead : Frame ν → Nat) : total ahead [] = 0 := rfl

@[simp] theorem total_cons (ahead : Frame ν → Nat) (f : Frame ν) (frames : List (Frame ν)) :
    total ahead (f :: frames) = ahead f + total ahead frames := rfl

@[simp] theorem total_append (ahead : Frame ν → Nat) (frames rest : List (Frame ν)) :
    total ahead (frames ++ rest) = total ahead frames + total ahead rest := by
  simp [total]

/-- A plain frame has none of what listeners and removals are about. -/
theorem ahead_of_isPlain {f : Frame ν} (h : f.isPlain) :
    f.passesAhead = 0 ∧ f.graphCallsAhead = 0 ∧ f.sequelsAhead = 0 ∧ f.callsAhead = 0 := by
  cases f <;> simp_all [isPlain, passesAhead, graphCallsAhead, sequelsAhead, callsAhead]

theorem total_of_isPlain {frames : List (Frame ν)} (h : ∀ f ∈ frames, f.isPlain) :
    total passesAhead frames = 0 ∧ total graphCallsAhead frames = 0 ∧ total sequelsAhead frames = 0 ∧
      total callsAhead frames = 0 := by
  induction frames with
  | nil => simp
  | cons f frames ih =>
    obtain ⟨hf, hframes⟩ := List.forall_mem_cons.1 h
    simp [ahead_of_isPlain hf, ih hframes]

/-- How much is left at the top of a stack. -/
def topWeight : List (Frame ν) → Nat ×ₗ Nat ×ₗ Nat
  | [] => toLex (0, toLex (0, 0))
  | f :: _ => f.weight

/-- All that is left to do for some frames while so many references wait, with what makes other work before
the work that it makes. -/
def burden (frames : List (Frame ν)) (waiting : Nat) :
    Nat ×ₗ Nat ×ₗ Nat ×ₗ Nat ×ₗ Nat ×ₗ Nat ×ₗ Nat ×ₗ Nat ×ₗ Nat :=
  toLex (total passesAhead frames, toLex (total graphCallsAhead frames, toLex (total sequelsAhead frames,
    toLex (waiting, toLex (total callsAhead frames, toLex (frames.length, topWeight frames))))))

section Burden

variable {f f' : Frame ν} {frames rest : List (Frame ν)} {w w' : Nat}

/-- What stands in place of the top frame decides. -/
theorem burden_append_lt (h : burden frames w' < burden [f] w) :
    burden (frames ++ rest) w' < burden (f :: rest) w := by
  simp only [burden, Prod.Lex.toLex_lt_toLex, total_append, total_cons, total_nil, List.length_append,
    List.length_cons, List.length_nil, Nat.add_zero, Nat.zero_add] at h ⊢
  cases frames with
  | nil =>
    simp only [total_nil, List.length_nil] at h ⊢
    omega
  | cons g frames =>
    simp only [List.cons_append, topWeight] at h ⊢
    simpa only [Nat.add_lt_add_iff_right, Nat.add_right_cancel_iff, Nat.add_comm rest.length 1] using h

/-- A frame that goes leaves less to do. -/
theorem burden_nil_lt (f : Frame ν) (w : Nat) : burden ([] : List (Frame ν)) w < burden [f] w := by
  simp only [burden, Prod.Lex.toLex_lt_toLex, total_cons, total_nil, List.length_cons, List.length_nil]
  grind

/-- Of plain frames the weight decides. -/
theorem burden_lt_of_weight (hf : f.isPlain) (hf' : f'.isPlain) (h : f'.weight < f.weight) :
    burden [f'] w < burden [f] w := by
  simp only [burden, Prod.Lex.toLex_lt_toLex, total_cons, total_nil, ahead_of_isPlain hf,
    ahead_of_isPlain hf', topWeight]
  simpa using h

/-- A pass after a turn has one listener less to call, however much plain work or telling the turn left. -/
theorem burden_turn_lt (hturn : f.Skips f' ∨ ∃ r, f.Calls f' r)
    (hpasses : total passesAhead frames = 0) (hgraph : total graphCallsAhead frames = 0)
    (hsequels : total sequelsAhead frames = 0) (hcalls : total callsAhead frames = 0) :
    burden (frames ++ [f']) w < burden [f] w := by
  simp only [burden, Prod.Lex.toLex_lt_toLex, total_append, total_cons, total_nil, hpasses, hgraph, hsequels,
    hcalls]
  rcases hturn with h | ⟨r, h⟩ <;> cases h <;>
    simp [passesAhead, graphCallsAhead, sequelsAhead, callsAhead]

/-- A removal of rules that is one further, whatever it has begun to tell. -/
theorem burden_ruleRemoval_lt {s : SystemId} {id : RuleId} {ids : List RuleId} (hpasses : total passesAhead frames = 0)
    (hgraph : total graphCallsAhead frames = 0) (hsequels : total sequelsAhead frames = 0) :
    burden (frames ++ [.ruleRemoval s ids]) w' < burden ([.ruleRemoval s (id :: ids)] : List (Frame ν)) w := by
  simp [burden, Prod.Lex.toLex_lt_toLex, hpasses, hgraph, hsequels, passesAhead, graphCallsAhead, sequelsAhead]

theorem weight_lt_of_stage (h : f'.stage < f.stage) : f'.weight < f.weight :=
  Prod.Lex.toLex_lt_toLex.2 (.inl h)

theorem weight_lt_of_effort (hs : f'.stage = f.stage) (h : f'.effort < f.effort) : f'.weight < f.weight :=
  Prod.Lex.toLex_lt_toLex.2 (.inr ⟨hs, h⟩)

end Burden

/-- A frame of a selection is plain and belongs to no check. -/
theorem stage_of_purpose {f : Frame ν} {p : Purpose} (h : f.purpose? = some p) : f.isPlain ∧ f.stage = 0 := by
  have use_stage : ∀ use : InferenceUse ν, use.purpose? = some p → use.stage = 0 := by
    intro use hu
    cases use with
    | selection wanted => rfl
    | _ => cases hu
  cases f with
  | selecting => exact ⟨rfl, rfl⟩
  | expanding => exact ⟨rfl, rfl⟩
  | initializing => exact ⟨rfl, rfl⟩
  | inferring i => exact ⟨rfl, use_stage _ h⟩
  | running rule i => exact ⟨rfl, use_stage _ h⟩
  | _ => cases h

/-- A frame of an inference is as far from the end of a check as its use says. -/
theorem stage_of_inference {f : Frame ν} {i : Inference ν} (h : f.inference? = some i) :
    f.isPlain ∧ f.stage = i.use.stage := by
  cases f with
  | inferring i =>
    cases h
    exact ⟨rfl, rfl⟩
  | running rule i =>
    cases h
    exact ⟨rfl, rfl⟩
  | _ => cases h

end Frame

namespace Engine

open LiveTypes.Frame

/-- How many references wait for a type. -/
def waiting (e : Engine ν) : Nat := e.references.countP Reference.isPending

/-- All that is left to do. -/
def toil (e : Engine ν) : Nat ×ₗ Nat ×ₗ Nat ×ₗ Nat ×ₗ Nat ×ₗ Nat ×ₗ Nat ×ₗ Nat ×ₗ Nat :=
  burden e.stack e.waiting

/-- Other frames stand in place of the top frame, and there is less to do. -/
def Eases (e : Engine ν) (f : Frame ν) (rest : List (Frame ν)) (e' : Engine ν) : Prop :=
  ∃ frames, e'.stack = frames ++ rest ∧ burden frames e'.waiting < burden [f] e.waiting

section Work

variable {e e' : Engine ν} {f f' : Frame ν} {rest : List (Frame ν)}

theorem Eases.toil_lt (h : Eases e f rest e') (hs : e.stack = f :: rest) : e'.toil < e.toil := by
  obtain ⟨frames, hs', hlt⟩ := h
  rw [toil, toil, hs, hs']
  exact burden_append_lt hlt

theorem waiting_eq (hr : e'.references = e.references) : e'.waiting = e.waiting := by
  rw [waiting, hr, waiting]

theorem Eases.gone (hs : e'.stack = rest) (hr : e'.references = e.references) : Eases e f rest e' :=
  ⟨[], hs, waiting_eq hr ▸ burden_nil_lt f _⟩

theorem Eases.lighter (hs : e'.stack = f' :: rest) (hr : e'.references = e.references) (hf : f.isPlain)
    (hf' : f'.isPlain) (h : f'.weight < f.weight) : Eases e f rest e' :=
  ⟨[f'], hs, waiting_eq hr ▸ burden_lt_of_weight hf hf' h⟩

/-! ## Selections, inferences and checks -/

/-- A reference that takes a type waits no more. -/
theorem Taken.waiting_lt {r : ReferenceId} {t : Ty} {x : Reference ν} {subs : Subscriptions}
    (h : Taken e r t x subs e') : e'.waiting < e.waiting := by
  obtain ⟨hr, hx⟩ := List.getElem?_eq_some_iff.1 h.found
  have pending : x.isPending := by simp [Reference.isPending, h.waiting]
  have hpos : 0 < e.references.countP Reference.isPending :=
    List.countP_pos_iff.2 ⟨x, List.mem_of_getElem? h.found, pending⟩
  have hset : e'.references = e.references.set r { x with state := .resolved t (some e.listeners.nextId) } := by
    rw [h.references, List.modify_eq_set_getElem?, h.found]
    rfl
  have hnot : Reference.isPending { x with state := .resolved t (some e.listeners.nextId) } = false := rfl
  simp only [Engine.waiting, hset, List.countP_set hr, hx, pending, hnot, if_true]
  simp only [Bool.false_eq_true, if_false]
  omega

/-- A selection that found a type is over. A reference that takes it has others to call, but waits no more. -/
theorem selected_eases {e₁ : Engine ν} {p : Purpose} (t : Ty) (hf : f.isPlain) (hs : e₁.stack = rest)
    (hr : e₁.references = e.references) : Eases e f rest (e₁.selected p t) := by
  cases p with
  | trial => exact .gone hs hr
  | demand => exact .gone hs hr
  | resolution r =>
    simp only [selected]
    rcases resolve_cases e₁ r t with ⟨heq, -⟩ | ⟨x, subs, htaken⟩
    · rw [heq]
      exact .gone hs hr
    · refine ⟨[_], by rw [htaken.stack, hs]; rfl, ?_⟩
      have hlt : (e₁.resolve r t).waiting < e.waiting := waiting_eq hr ▸ htaken.waiting_lt
      obtain ⟨hpasses, hcalls, hsequels, -⟩ := ahead_of_isPlain hf
      simp only [burden, Prod.Lex.toLex_lt_toLex, total_cons, total_nil, hpasses, hcalls, hsequels]
      exact .inr ⟨rfl, .inr ⟨rfl, .inr ⟨rfl, .inl hlt⟩⟩⟩

theorem unselected_eases {e₁ : Engine ν} {p : Purpose} {error : SelectError} (hs : e₁.stack = rest)
    (hr : e₁.references = e.references) : Eases e f rest (e₁.unselected p error) := by
  refine .gone ((unselected_stack _ _ _).trans hs) ?_
  exact (plain_unselected e₁ p error).references.trans hr

/-- A check that has both its types is over, or it needs words. -/
theorem concludeCheck_stack (e : Engine ν) (check : RelationCheck ν) (actual expected : Option Ty) :
    (e.concludeCheck check actual expected).stack = e.stack ∨
      ∃ provider v, (e.concludeCheck check actual expected).stack = .wording provider v :: e.stack := by
  have worded : ∀ (e : Engine ν) system actual expected mismatches,
      (e.violated system check actual expected mismatches).stack = e.stack ∨ ∃ provider v,
        (e.violated system check actual expected mismatches).stack = .wording provider v :: e.stack := by
    intro e system actual expected mismatches
    unfold violated
    split
    · exact .inr ⟨_, _, push_stack _ _⟩
    · exact .inl (reportViolation_stack _ _ _)
  unfold concludeCheck
  split
  · rename_i actual expected system _
    rw [← compareIn_stack e system.comparisons check.relation actual expected]
    dsimp only
    split
    · exact worded _ _ _ _ _
    · exact worded _ _ _ _ _
    · exact .inl rfl
  · exact .inl rfl

theorem concludeCheck_eases {e₁ : Engine ν} {check : RelationCheck ν} {actual expected : Option Ty}
    (hf : f.isPlain) (hstage : 0 < f.stage) (hs : e₁.stack = rest) (hr : e₁.references = e.references) :
    Eases e f rest (e₁.concludeCheck check actual expected) := by
  have hr' := (plain_concludeCheck (p := none) e₁ check actual expected).references.trans hr
  rcases concludeCheck_stack e₁ check actual expected with h | ⟨provider, v, h⟩
  · exact .gone (h.trans hs) hr'
  · refine .lighter (h.trans (by rw [hs])) hr' hf rfl ?_
    exact weight_lt_of_stage hstage

theorem Infers.eases {yields : Rule → Outcome} {s : SystemId} {n : ν} {use : InferenceUse ν}
    {outcome : Except (List InferenceProblem) Ty} {i : Inference ν}
    (h : Infers yields e f rest s n use outcome e') (hf : f.inference? = some i) (huse : i.use = use) :
    Eases e f rest e' := by
  obtain ⟨hplain, hstage⟩ := stage_of_inference hf
  rw [huse] at hstage
  cases h with
  | onward hp hs' hf' he ho =>
    obtain ⟨hplain', hstage'⟩ := stage_of_inference hf'
    exact .lighter hs' hp.references hplain hplain'
      (weight_lt_of_effort (hstage'.trans hstage.symm) he)
  | @concluded e₁ j hp hs' hj hn hu =>
    have hr : e₁.references = e.references := hp.references
    unfold inferred
    rw [hu]
    cases use with
    | inquiry => exact .gone hs' hr
    | actual check =>
      refine .lighter (by rw [push_stack, hs']) ((push_references _ _).trans hr) hplain rfl ?_
      exact weight_lt_of_stage (by rw [hstage]; exact Nat.lt_succ_self 2)
    | expected check actual =>
      exact concludeCheck_eases hplain (by rw [hstage]; exact Nat.one_pos) hs' hr
    | selection wanted =>
      dsimp only
      split
      · exact selected_eases _ hplain hs' hr
      · exact unselected_eases hs' hr

theorem Advances.eases {o : Oracle ν} {p : Purpose} (h : Advances o p e f rest e')
    (hf : f.purpose? = some p) : Eases e f rest e' := by
  obtain ⟨hplain, hstage⟩ := stage_of_purpose hf
  cases h with
  | onward hp hs' hf' he hv =>
    obtain ⟨hplain', hstage'⟩ := stage_of_purpose hf'
    exact .lighter hs' hp.references hplain hplain' (weight_lt_of_effort (hstage'.trans hstage.symm) he)
  | nothing hp hs' hv => exact unselected_eases hs' hp.references
  | found hp hs' hv => exact selected_eases _ hplain hs' hp.references

/-- What concerns the host alone, as far as the engine goes on with it by itself. -/
theorem tick_eases_of_isPlain (hs : e.stack = f :: rest) (hf : f.isPlain) (ht : e.tick = some e') :
    Eases e f rest e' := by
  cases f with
  | deliver result =>
    simp only [tick, hs, Option.some.injEq] at ht
    subst ht
    exact .gone rfl rfl
  | selecting selection selector =>
    have o : Oracle ν :=
      ⟨⟨fun _ _ => .notApplicable, fun _ => default⟩, fun _ => default, fun _ _ => .identifier "",
        fun _ _ _ => {}⟩
    exact (tick_advances (o := o) hs rfl ht).eases rfl
  | inferring i =>
    have h : Infers (fun _ => .notApplicable) e (.inferring i) rest _ _ _ _ e' := tick_infers hs ht
    exact h.eases rfl rfl
  | relating check actual =>
    simp only [tick, hs, Option.some.injEq] at ht
    subst ht
    unfold relateStep
    split
    · exact concludeCheck_eases rfl Nat.two_pos rfl rfl
    · exact .lighter (push_stack _ _) (push_references _ _) rfl rfl (weight_lt_of_stage (Nat.lt_succ_self 1))
  | validating v =>
    obtain ⟨node, checks, problems⟩ := v
    cases checks with
    | nil =>
      simp only [tick, hs, Option.some.injEq] at ht
      subst ht
      exact .gone rfl rfl
    | cons check checks =>
      simp only [tick, hs, Option.some.injEq] at ht
      subst ht
      refine .lighter (push_stack _ _) (push_references _ _) rfl rfl (weight_lt_of_stage ?_)
      simp only [stage, List.length_cons]
      omega
  | running => simp [tick, hs] at ht
  | expanding => simp [tick, hs] at ht
  | initializing => simp [tick, hs] at ht
  | checking => simp [tick, hs] at ht
  | wording => simp [tick, hs] at ht
  | _ => cases hf

/-- What concerns the host alone, as far as it waits for an answer. -/
theorem answer_eases_of_isPlain {a : Answer ν} (hs : e.stack = f :: rest) (hf : f.isPlain)
    (ha : e.answer a = some e') : Eases e f rest e' := by
  cases f with
  | running rule i =>
    cases a with
    | outcome outcome =>
      have h : Infers (fun _ => outcome) e (.running rule i) rest _ _ _ _ e' := answer_infers hs ha
      exact h.eases rfl rfl
    | _ => simp [answer, hs] at ha
  | expanding d selection =>
    cases a with
    | selector selector =>
      simp only [answer, hs, Option.some.injEq] at ha
      subst ha
      refine .lighter (push_stack _ _) (push_references _ _) rfl rfl (weight_lt_of_effort rfl ?_)
      simp [effort, Prod.Lex.toLex_lt_toLex]
    | _ => simp [answer, hs] at ha
  | initializing i selection =>
    cases a with
    | type t =>
      simp only [answer, hs, Option.some.injEq] at ha
      subst ha
      exact selected_eases t rfl rfl rfl
    | _ => simp [answer, hs] at ha
  | checking check v =>
    cases a with
    | problems problems =>
      simp only [answer, hs, Option.some.injEq] at ha
      subst ha
      exact .lighter (push_stack _ _) (push_references _ _) rfl rfl (weight_lt_of_stage (Nat.lt_succ_self _))
    | _ => simp [answer, hs] at ha
  | wording provider v =>
    cases a with
    | details details =>
      simp only [answer, hs, Option.some.injEq] at ha
      subst ha
      exact .gone (reportViolation_stack _ _ _) (plain_reportViolation (p := none) _ _ _).references
    | _ => simp [answer, hs] at ha
  | deliver => simp [answer, hs] at ha
  | selecting => simp [answer, hs] at ha
  | inferring => simp [answer, hs] at ha
  | relating => simp [answer, hs] at ha
  | validating => simp [answer, hs] at ha
  | _ => cases hf

/-! ## Passes and removals -/

/-- What listeners and removals are about. -/
theorem Handles.eases {h : Host ν} (hh : Handles h e f rest e') (hf : f.isPlain = false) :
    Eases e f rest e' := by
  cases hh with
  | work hw =>
    cases hw with
    | pop => exact .gone rfl rfl
    | aside hplain => simp [hplain] at hf
    | evaluate hp => simp [stage_of_purpose hp] at hf
    | @pass f' hskip => exact ⟨[] ++ [f'], rfl, burden_turn_lt (.inl hskip) rfl rfl rfl rfl⟩
    | @tell f' o notice hskip =>
      refine ⟨[.telling o notice] ++ [f'], push_stack _ _, ?_⟩
      rw [waiting_eq (push_references _ _)]
      exact burden_turn_lt (.inl hskip) rfl rfl rfl rfl
    | @attempt f' r hcall =>
      have hplain := plain_attempt (e.withStack (f' :: rest)) r
      obtain ⟨frames, hs', hframes⟩ := hplain.stack
      obtain ⟨hpasses, hgraph, hsequels, hcalls⟩ := total_of_isPlain fun g hg => (hframes g hg).plain
      refine ⟨frames ++ [f'], by simp [hs'], ?_⟩
      rw [waiting_eq (e := e) hplain.references]
      exact burden_turn_lt (.inr ⟨r, hcall⟩) hpasses hgraph hsequels hcalls
  | @lose t key r queue =>
    rcases invalidate_cases (e.withStack (.graphPass (.removedType t key) queue :: rest)) r t with
      ⟨heq, -⟩ | ⟨x, watch, hlost⟩
    · rw [heq]
      exact ⟨[.graphPass (.removedType t key) queue], rfl,
        Prod.Lex.toLex_lt_toLex.2 (.inr ⟨rfl, Prod.Lex.toLex_lt_toLex.2 (.inl (Nat.lt_succ_self _))⟩)⟩
    · refine ⟨[_, _, .graphPass (.removedType t key) queue], hlost.stack, ?_⟩
      simp [burden, Prod.Lex.toLex_lt_toLex, passesAhead, graphCallsAhead]
  | @drop t key s y queue =>
    refine ⟨[_, .graphPass (.removedType t key) queue], rfl, ?_⟩
    simp [burden, Prod.Lex.toLex_lt_toLex, passesAhead, graphCallsAhead]
  | @restart r =>
    rcases startResolving_cases (e.withStack rest) r with ⟨heq, -⟩ | ⟨x, hx, hd, heq⟩
    · rw [heq]
      exact .gone rfl rfl
    · rw [heq]
      obtain ⟨frames, hs', hframes⟩ := (plain_attempt ((e.withStack rest).subscribe r x.system) r).stack
      obtain ⟨hpasses, hgraph, hsequels, -⟩ := total_of_isPlain fun g hg => (hframes g hg).plain
      refine ⟨frames, hs', ?_⟩
      simp [burden, Prod.Lex.toLex_lt_toLex, hpasses, hgraph, hsequels, passesAhead, graphCallsAhead, sequelsAhead]
  | @removeEdge t key edge edges =>
    unfold Engine.removeEdge
    split
    · refine ⟨[_, .typeRemoval t key edges], push_stack _ _, ?_⟩
      simp [burden, Prod.Lex.toLex_lt_toLex, passesAhead]
    · refine ⟨[.typeRemoval t key edges], rfl, ?_⟩
      simp [burden, Prod.Lex.toLex_lt_toLex, passesAhead]
  | removeNode =>
    refine ⟨[_], push_stack _ _, ?_⟩
    simp [burden, Prod.Lex.toLex_lt_toLex, passesAhead]
  | @removeRule s id ids =>
    unfold Engine.removeRule
    split
    · exact ⟨[] ++ [.ruleRemoval s ids], rfl, burden_ruleRemoval_lt rfl rfl rfl⟩
    · unfold notifyRules
      split
      · exact ⟨[] ++ [.ruleRemoval s ids], rfl, burden_ruleRemoval_lt rfl rfl rfl⟩
      · exact ⟨[_] ++ [.ruleRemoval s ids], push_stack _ _, burden_ruleRemoval_lt rfl rfl rfl⟩

/-! ## The end of all work -/

/-- The engine does a step, by itself or with an answer. -/
def Proceeds (e e' : Engine ν) : Prop := e.tick = some e' ∨ ∃ a, e.answer a = some e'

/-- A step replaces the top frame and leaves less to do. -/
theorem Proceeds.eases (h : Proceeds e e') : ∃ f rest, e.stack = f :: rest ∧ Eases e f rest e' := by
  rcases h with ht | ⟨a, ha⟩
  · obtain ⟨f, rest, hs, hh⟩ := tick_handles (h := Host.answering .done) ht
    refine ⟨f, rest, hs, ?_⟩
    cases hf : f.isPlain with
    | true => exact tick_eases_of_isPlain hs hf ht
    | false => exact hh.eases hf
  · obtain ⟨f, rest, hs, hh⟩ := answer_handles (answering_answers ha) ha
    refine ⟨f, rest, hs, ?_⟩
    cases hf : f.isPlain with
    | true => exact answer_eases_of_isPlain hs hf ha
    | false => exact hh.eases hf

theorem Proceeds.toil_lt (h : Proceeds e e') : e'.toil < e.toil := by
  obtain ⟨f, rest, hs, hease⟩ := h.eases
  exact hease.toil_lt hs

/-- The engine works for ever at nothing, whatever it is answered. -/
theorem wellFounded_proceeds : WellFounded fun e' e : Engine ν => Proceeds e e' :=
  Subrelation.wf (fun h => h.toil_lt) (InvImage.wf toil wellFounded_lt)

/-- Work under way goes on by itself or waits for an answer. -/
theorem exists_proceeds (hs : e.stack = f :: rest) :
    (∃ e', e.tick = some e') ∨ ∃ a e', e.answer a = some e' := by
  simp only [← Option.isSome_iff_exists]
  cases f with
  | telling => exact .inr ⟨.done, by simp [answer, hs]⟩
  | running => exact .inr ⟨.outcome .notApplicable, by simp [answer, hs]⟩
  | expanding => exact .inr ⟨.selector (.identifier ""), by simp [answer, hs]⟩
  | initializing => exact .inr ⟨.type default, by simp [answer, hs]⟩
  | checking => exact .inr ⟨.problems [], by simp [answer, hs]⟩
  | wording => exact .inr ⟨.details {}, by simp [answer, hs]⟩
  | graphPass event queue => cases queue <;> exact .inl (by simp [tick, hs])
  | typeRemoval t key edges => cases edges <;> exact .inl (by simp [tick, hs])
  | rulePass s event queue => cases queue <;> exact .inl (by simp [tick, hs])
  | ruleRemoval s ids => cases ids <;> exact .inl (by simp [tick, hs])
  | referencePass r event queue => cases queue <;> exact .inl (by simp [tick, hs])
  | validating v => cases hv : v.checks <;> exact .inl (by simp [tick, hs, hv])
  | _ => exact .inl (by simp [tick, hs])

end Work
end Engine
end LiveTypes
