import LiveTypes.Proofs.Courses

/-!
# Settings are for good

A type system gets its settings when it is made: the limits of its configuration, how it prints and how it
compares. Whatever a run does afterwards, it keeps them, and new systems come after it.
-/
namespace LiveTypes

variable {ν : Type}

/-- What is fixed about a type system. -/
def System.settings (y : System ν) : Config × Printer ν × Comparisons := (y.config, y.printer, y.comparisons)

namespace Engine

/-- What is fixed about the type systems. -/
def settings (e : Engine ν) : List (Config × Printer ν × Comparisons) := e.systems.map System.settings

section Settings

variable {e e' : Engine ν}

theorem settings_of_eq (hs : e'.systems = e.systems) : e'.settings = e.settings := by
  rw [settings, hs, settings]

/-- A system changes, but not its settings. -/
theorem settings_of_modify {s : SystemId} {f : System ν → System ν} (hs : e'.systems = e.systems.modify s f)
    (hf : ∀ y, (f y).settings = y.settings) : e'.settings = e.settings := by
  rw [settings, hs, settings]
  refine List.ext_getElem? fun i => ?_
  rw [List.getElem?_map, List.getElem?_map, List.getElem?_modify]
  cases e.systems[i]? with
  | none => rfl
  | some y => by_cases hi : s = i <;> simp [hi, hf]

theorem Plain.settings {p : Option Purpose} (h : Plain p e e') : e'.settings = e.settings :=
  settings_of_eq h.systems

theorem settings_notifyRules (e : Engine ν) (s : SystemId) (event : RuleEvent) :
    (e.notifyRules s event).settings = e.settings := by
  unfold notifyRules
  split
  · rfl
  · exact settings_of_modify (push_systems _ _) fun _ => rfl

theorem settings_removeEdge (e : Engine ν) (x : Edge) : (e.removeEdge x).settings = e.settings := by
  unfold removeEdge
  split
  · exact settings_of_eq (push_systems _ _)
  · rfl

theorem settings_removeRule (e : Engine ν) (s : SystemId) (id : RuleId) :
    (e.removeRule s id).settings = e.settings := by
  unfold removeRule
  split
  · rfl
  · rw [settings_notifyRules]
    exact settings_of_modify rfl fun _ => rfl

theorem settings_resolve (e : Engine ν) (r : ReferenceId) (t : Ty) : (e.resolve r t).settings = e.settings := by
  rcases resolve_cases e r t with ⟨heq, -⟩ | ⟨x, subs, ht⟩
  · rw [heq]
  · exact settings_of_modify ht.systems fun _ => rfl

theorem settings_invalidate (e : Engine ν) (r : ReferenceId) (t : Ty) :
    (e.invalidate r t).settings = e.settings := by
  rcases invalidate_cases e r t with ⟨heq, -⟩ | ⟨x, watch, hl⟩
  · rw [heq]
  · exact settings_of_eq hl.systems

theorem settings_subscribe (e : Engine ν) (r : ReferenceId) (s : SystemId) :
    ((e.subscribe r s).attempt r).settings = e.settings :=
  (plain_attempt _ r).settings.trans (settings_of_modify rfl fun _ => rfl)

theorem settings_startResolving (e : Engine ν) (r : ReferenceId) :
    (e.startResolving r).settings = e.settings := by
  rcases startResolving_cases e r with ⟨heq, -⟩ | ⟨x, -, -, heq⟩
  · rw [heq]
  · rw [heq, settings_subscribe]

theorem settings_deconstruct (e : Engine ν) (r : ReferenceId) : (e.deconstruct r).settings = e.settings := by
  rcases deconstruct_cases e r with heq | ⟨x, hst⟩
  · rw [heq]
  · have hs := hst.systems
    cases hx : x.state with
    | unresolved subscriptions =>
      rw [hx] at hs
      cases subscriptions with
      | none => exact settings_of_eq hs
      | some subs => exact settings_of_modify hs fun _ => rfl
    | resolved t watch =>
      rw [hx] at hs
      exact settings_of_eq hs

theorem settings_selected (e : Engine ν) (p : Purpose) (t : Ty) : (e.selected p t).settings = e.settings := by
  cases p with
  | trial => rfl
  | demand => rfl
  | resolution r => exact settings_resolve e r t

theorem Work.settings {h : Host ν} {f : Frame ν} {rest : List (Frame ν)} (hw : Work h e f rest e') :
    e'.settings = e.settings := by
  cases hw with
  | pop => rfl
  | aside _ _ _ hp => exact hp.settings
  | pass => rfl
  | tell => exact settings_of_eq (push_systems _ _)
  | attempt => exact (plain_attempt _ _).settings
  | evaluate _ hev =>
    cases hev with
    | onward hp => exact hp.settings
    | nothing hp => exact (plain_unselected _ _ _).settings.trans hp.settings
    | found => exact settings_selected _ _ _

theorem Handles.settings {h : Host ν} {f : Frame ν} {rest : List (Frame ν)} (hh : Handles h e f rest e') :
    e'.settings = e.settings := by
  cases hh with
  | work hw => exact hw.settings
  | lose => exact settings_invalidate _ _ _
  | drop => rfl
  | restart => exact settings_startResolving _ _
  | removeEdge => exact settings_removeEdge _ _
  | removeNode => exact settings_of_eq (push_systems _ _)
  | removeRule => exact settings_removeRule _ _ _

theorem Proceeds.settings (h : Proceeds e e') : e'.settings = e.settings := by
  rcases h with ht | ⟨a, ha⟩
  · obtain ⟨f, rest, -, hh⟩ := tick_handles (h := Host.answering .done) ht
    exact hh.settings
  · obtain ⟨f, rest, -, hh⟩ := answer_handles (answering_answers ha) ha
    exact hh.settings

/-- Only a new type system adds settings. -/
theorem call_settings {c : Call ν} (hk : e.knows c) : e.settings <+: (e.call c).settings := by
  have same : ∀ {e' : Engine ν}, e'.settings = e.settings → e.settings <+: e'.settings :=
    fun h => h ▸ List.prefix_rfl
  cases c with
  | addSystem config printer comparisons =>
    refine ⟨[(config, printer, comparisons)], ?_⟩
    simp [call, settings, finish, report, System.settings]
  | addType t key =>
    refine same ?_
    simp only [call]
    split
    · rfl
    · rfl
    · exact settings_of_eq ((push_systems _ _).trans (push_systems _ _))
  | removeType t =>
    refine same ?_
    simp only [call]
    split
    · rfl
    · exact settings_of_eq ((push_systems _ _).trans (push_systems _ _))
  | addEdge x =>
    refine same ?_
    simp only [call]
    split
    · rfl
    · rfl
    · exact settings_of_eq ((push_systems _ _).trans (push_systems _ _))
  | removeEdge x => exact same ((settings_removeEdge _ x).trans (settings_of_eq (push_systems _ _)))
  | listenToGraph o => exact same rfl
  | watchRemoval t o => exact same rfl
  | leaveGraph id => exact same rfl
  | compare relation actual expected =>
    exact same (plain_compareIn (p := none) e .graph relation actual expected).settings
  | addRule s tag name boundTo =>
    refine same ?_
    simp only [call]
    split
    · rfl
    · rw [settings_notifyRules]
      exact settings_of_modify (push_systems _ _) fun _ => rfl
  | removeRule s id => exact same ((settings_removeRule _ s id).trans (settings_of_eq (push_systems _ _)))
  | listenToRules s o => exact same (settings_of_modify rfl fun _ => rfl)
  | leaveRules s id => exact same (settings_of_modify rfl fun _ => rfl)
  | infer s n => exact same (settings_of_eq (push_systems _ _))
  | trySelect s selector => exact same (settings_of_eq (push_systems _ _))
  | mustSelect s selector => exact same (settings_of_eq (push_systems _ _))
  | addReference s selector =>
    simp only [knows, Bool.and_eq_true] at hk
    rw [addReference_eq hk.2]
    exact same (settings_subscribe _ _ _)
  | listenToReference r o inform =>
    refine same (settings_of_eq ?_)
    simp only [call]
    split
    · split
      · exact (push_systems _ _).trans (push_systems _ _)
      · exact (push_systems _ _).trans (push_systems _ _)
    · exact push_systems _ _
  | leaveReference r o => exact same rfl
  | deconstruct r => exact same (settings_deconstruct e r)
  | relate request => exact same (plain_relate (p := none) e request).settings
  | addChecks s checks => exact same (settings_of_modify rfl fun _ => rfl)
  | validate s n => exact same (settings_of_eq (push_systems _ _))

/-- What is fixed about a type system stays so. -/
theorem move?_settings {m : Move ν} (hm : e.move? m = some e') : e.settings <+: e'.settings := by
  cases m with
  | work => exact (Proceeds.settings (.inl hm)) ▸ List.prefix_rfl
  | answer a => exact (Proceeds.settings (.inr ⟨a, hm⟩)) ▸ List.prefix_rfl
  | call c =>
    simp only [move?] at hm
    split at hm
    · rename_i hturn
      rw [Bool.and_eq_true] at hturn
      cases hm
      exact call_settings hturn.2
    · cases hm
  | forget o =>
    cases hm
    unfold forget
    split <;> exact List.prefix_rfl
  | retire s =>
    cases hm
    unfold retire
    split <;> exact List.prefix_rfl

/-- The settings of a system that was there before are found again. -/
theorem exists_system_of_settings (h : e.settings <+: e'.settings) {s : SystemId} {y : System ν}
    (hy : e.systems[s]? = some y) : ∃ y', e'.systems[s]? = some y' ∧ y'.settings = y.settings := by
  have hs : e.settings[s]? = some y.settings := by simp [Engine.settings, hy]
  have hs' : e'.settings[s]? = some y.settings := by
    obtain ⟨more, hmore⟩ := h
    rw [← hmore, List.getElem?_append_left (List.getElem?_eq_some_iff.1 hs).1, hs]
  rw [Engine.settings, List.getElem?_map] at hs'
  exact Option.map_eq_some_iff.1 hs'

theorem limitOf_of_settings (h : e.settings <+: e'.settings) {s : SystemId} (hs : s < e.systems.length) :
    e'.limitOf s = e.limitOf s := by
  have hy := List.getElem?_eq_getElem hs
  obtain ⟨y', hy', heq⟩ := exists_system_of_settings h hy
  simp only [limitOf, hy, hy']
  exact congrArg (·.1.maxDepth) heq

theorem judge_of_settings (h : e.settings <+: e'.settings) {s : SystemId} (hs : s < e.systems.length) (n : ν)
    (outcome : Except (List InferenceProblem) Ty) : e'.judge s n outcome = e.judge s n outcome := by
  have hy := List.getElem?_eq_getElem hs
  obtain ⟨y', hy', heq⟩ := exists_system_of_settings h hy
  have hprinter : y'.printer = e.systems[s].printer := congrArg (·.2.1) heq
  cases outcome with
  | ok t => rfl
  | error problems => simp only [judge, hy, hy', hprinter]

end Settings
end Engine
end LiveTypes
