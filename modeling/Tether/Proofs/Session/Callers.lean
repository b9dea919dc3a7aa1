import Mathlib.Data.List.Perm.Subperm
import Tether.Proofs.Session.Answers
import Tether.Proofs.Session.Endings
import Tether.Proofs.Session.Progress
import Tether.Proofs.Session.Readiness

namespace Tether.Session

open Time (Instant Timestamp)

variable {κ σ : Type}

def Deed.caller? : Deed κ → Option κ
  | .submit _ caller => some caller
  | _ => none

private theorem callers_deliver (requests : List (Pending κ)) (outcome : Pending κ → Outcome) :
    ((requests.flatMap fun request => request.deliver (outcome request)).map
      Delivery.caller).Sublist (requests.map Pending.caller) := by
  induction requests with
  | nil => exact List.Sublist.refl _
  | cons request requests ih =>
    rw [List.flatMap_cons, List.map_append, List.map_cons, ← List.singleton_append]
    refine List.Sublist.append ?_ ih
    unfold Pending.deliver
    split
    · exact List.Sublist.refl _
    · exact List.nil_sublist _

/-- Of the requests that waited some end and are told so, and others wait on. -/
private theorem callers_part {pending ended left : List (Pending κ)} (ends : Pending κ → Bool)
    (outcome : Pending κ → Outcome) (goes : ended.Sublist (pending.filter ends))
    (stays : left.Sublist (pending.filter fun request => !ends request)) :
    ((ended.flatMap fun request => request.deliver (outcome request)).map Delivery.caller ++
      left.map Pending.caller).Subperm (pending.map Pending.caller) := by
  have parts : (pending.filter ends ++ pending.filter fun request => !ends request).Perm pending :=
    List.filter_append_perm ends pending
  refine List.Subperm.trans ?_ (parts.map Pending.caller).subperm
  rw [List.map_append]
  apply List.Sublist.subperm
  exact ((callers_deliver ended outcome).trans (goes.map _)).append (stays.map _)

namespace Core

def tells (terms : Terms σ) (now : Instant) (core : Core κ) : Deed κ → List (Delivery κ)
  | .dispatch frame => (core.dispatch terms.signing frame).deliveries
  | .sweep => (core.sweep now).2
  | .teardown => core.failPending.2
  | _ => []

theorem tells_flushDeed (terms : Terms σ) (now : Instant) (core : Core κ)
    (outside : Surroundings (Wires σ)) (runner : Runner κ (Wires σ)) :
    core.tells terms now (runner.flushDeed outside) = [] := by
  unfold Runner.flushDeed
  split <;> rfl

variable [DecidableEq κ] (terms : Terms σ)

private theorem callers_wait (core : Core κ) (now : Instant) (time : Timestamp) (deed : Deed κ) :
    ((core.after terms now time deed).registry.pending.map Pending.caller).Sublist
      (core.registry.pending.map Pending.caller ++ deed.caller?.toList) := by
  have called (requests : List (Pending κ)) :
      requests.map Pending.caller = (requests.map Pending.face).map fun face => face.2.2 := by
    rw [List.map_map]
    rfl
  rcases core.faces_after terms now time deed with fewer | ⟨message, caller, rfl, admits⟩
  · rw [called, called]
    exact (fewer.map _).trans (List.sublist_append_left _ _)
  · obtain ⟨id, taken, deadline, frame, allocated, _, same⟩ := admits
    obtain ⟨_, rfl⟩ := Registry.allocate_eq_ok allocated
    rw [same, List.map_append]
    exact List.Sublist.refl _

/-- A deed tells callers of requests that wait no longer. -/
theorem callers_after (core : Core κ) (now : Instant) (time : Timestamp) (deed : Deed κ) :
    ((core.tells terms now deed).map Delivery.caller ++
        (core.after terms now time deed).registry.pending.map Pending.caller).Subperm
      (core.registry.pending.map Pending.caller ++ deed.caller?.toList) := by
  cases deed with
  | dispatch frame =>
    simp only [tells, Core.after, Deed.caller?, Option.toList_none, List.append_nil]
    rcases core.dispatch_cases terms.signing frame with
      ⟨same, none, _⟩ | ⟨request, outcome, _, found, freed, told⟩
    · rw [same, none]
      exact List.Subperm.refl _
    · obtain ⟨waits, named⟩ := Registry.find?_eq_some found
      rw [freed, told]
      have goes : [request].Sublist (core.registry.pending.filter fun other =>
          other.id = Envelope.requestIdOf frame) :=
        List.singleton_sublist.mpr (List.mem_filter.mpr ⟨waits, decide_eq_true named⟩)
      have part := callers_part _ (fun _ => outcome) goes (List.Sublist.refl _)
      simpa using part
  | sweep =>
    simp only [tells, Core.after, Deed.caller?, Option.toList_none, List.append_nil]
    refine callers_part (Pending.isStale now) _ (List.Sublist.refl _) ?_
    rw [pending_sweep]
    have spared : (core.registry.pending.filter fun request =>
          request.id ∉ core.registry.staleIds now) =
        (core.registry.pending.filter fun request => !request.isStale now).filter fun request =>
          request.id ∉ core.registry.staleIds now := by
      rw [List.filter_filter]
      apply List.filter_congr
      intro request waits
      cases stale : request.isStale now with
      | false => simp
      | true =>
        have among : request.id ∈ core.registry.staleIds now :=
          List.mem_map_of_mem (List.mem_filter.mpr ⟨waits, stale⟩)
        simp [among]
    rw [spared]
    exact List.filter_sublist
  | teardown =>
    simp only [tells, Core.after, Deed.caller?, Option.toList_none, List.append_nil]
    refine callers_part (fun _ => true) _ (by simp) ?_
    rw [core.torn_failPending.2]
    exact List.nil_sublist _
  | _ => exact (callers_wait terms core now time _).subperm

end Core

theorem results_of_not_mem [DecidableEq κ] {caller : κ} {told : List (Delivery κ)}
    (absent : caller ∉ told.map Delivery.caller) : results caller told = [] := by
  rw [results, List.filter_eq_nil_iff.mpr, List.map_nil]
  intro delivery member named
  exact absent ((of_decide_eq_true named).1 ▸ List.mem_map_of_mem member)

/-- The caller that a turn is to let in. -/
def Turn.caller? : Turn κ σ → Option κ
  | .submit _ caller => some caller
  | _ => none

def News.delivery? : News κ → Option (Delivery κ)
  | .delivery told => some told
  | _ => none

theorem filterMap_delivery (deliveries : List (Delivery κ)) :
    (deliveries.map News.delivery).filterMap News.delivery? = deliveries := by
  rw [List.filterMap_map]
  exact List.filterMap_some

theorem Runner.told_perform (terms : Terms σ) (now : Instant) (time : Timestamp)
    (runner : Runner κ (Wires σ)) (action : Action) :
    (runner.perform (terms.outside now time) action).news.filterMap News.delivery? =
      runner.core.tells terms now (runner.deed (terms.outside now time) action) := by
  cases action with
  | flushQueue =>
    exact (Core.tells_flushDeed terms now runner.core (terms.outside now time) runner).symm
  | scheduleReconnect delay =>
    simp only [perform]
    split <;> rfl
  | dispatch frame =>
    simp only [perform, List.filterMap_append, filterMap_delivery]
    have quiet (heard : Option Message.ServerMessage) :
        (heard.toList.map (News.heard (κ := κ))).filterMap News.delivery? = [] := by
      cases heard <;> rfl
    rw [quiet, List.append_nil]
    rfl
  | failPending => exact filterMap_delivery _
  | _ => rfl

namespace Course

/-- What callers have been told, the oldest first. -/
def told (course : Course κ σ) : List (Delivery κ) := course.news.filterMap News.delivery?

variable (terms : Terms σ)

theorem caller?_deed (course : Course κ σ) (next : Turn κ σ) :
    (course.deed terms next).caller? = next.caller? := by
  cases next with
  | take choice =>
    simp only [deed, Turn.caller?]
    split
    · split
      · rfl
      · unfold Runner.flushDeed
        split <;> rfl
    · split <;> rfl
    · rfl
  | proceed =>
    simp only [deed, Turn.caller?]
    split
    · split
      · rfl
      · rename_i action _ _ _ _
        cases action with
        | flushQueue =>
          simp only [Runner.deed, Runner.flushDeed]
          split <;> rfl
        | _ => rfl
    · rfl
  | _ => rfl

variable [DecidableEq κ]

private theorem told_take (course : Course κ σ) (choice : Choice) :
    (course.turn terms (.take choice)).told =
      course.told ++ course.core.tells terms course.now (course.deed terms (.take choice)) := by
  by_cases waits : course.Waits
  · obtain ⟨idle, lives⟩ := waits
    rw [turn_take_of_waits terms ⟨idle, lives⟩]
    cases choice with
    | flush =>
      simp only [deed, idle, lives, Bool.false_eq_true, ↓reduceIte, Core.tells_flushDeed,
        List.append_nil]
      rfl
    | sweep =>
      simp only [deed, idle, lives, attend, told, List.filterMap_append, filterMap_delivery,
        Bool.false_eq_true, ↓reduceIte]
      rfl
    | disconnect => simp [deed, idle, attend, told, Core.tells]
    | delay =>
      simp only [deed, idle, attend, Core.tells, List.append_nil]
      split <;> rfl
    | report =>
      simp only [deed, idle, attend, Core.tells, List.append_nil]
      split <;> rfl
  · have nothing : course.deed terms (.take choice) = .nothing := by
      cases idle : course.work with
      | busy actions events => simp only [deed, idle]
      | waiting =>
        cases ended : course.runner.isOver with
        | true => cases choice <;> simp [deed, idle, ended]
        | false => exact absurd ⟨idle, ended⟩ waits
    rw [turn_take_of_not_waits terms waits, nothing]
    exact (List.append_nil _).symm

private theorem told_advance (course : Course κ σ) :
    (course.turn terms .proceed).told =
      course.told ++ course.core.tells terms course.now (course.deed terms .proceed) := by
  cases stranded : course.runner.stranded with
  | true =>
    have nothing : course.deed terms .proceed = .nothing := by
      simp only [deed, stranded]
      split <;> rfl
    have same : course.turn terms .proceed = course := if_pos stranded
    rw [same, nothing]
    exact (List.append_nil _).symm
  | false =>
    simp only [turn, advance, deed, stranded, Bool.false_eq_true, ↓reduceIte]
    cases course.work with
    | waiting => exact (List.append_nil _).symm
    | busy actions events =>
      cases actions with
      | cons action actions =>
        simp only [told, List.filterMap_append, Runner.told_perform]
        rfl
      | nil =>
        cases events with
        | cons event events => exact (List.append_nil _).symm
        | nil =>
          have shown : course.runner.publish.news.filterMap News.delivery? = [] := by
            simp only [Runner.publish]
            split <;> rfl
          simp only [told, List.filterMap_append, shown]
          rfl

theorem told_turn (course : Course κ σ) (next : Turn κ σ) :
    (course.turn terms next).told =
      course.told ++ course.core.tells terms course.now (course.deed terms next) := by
  rcases course.turn_cases terms next with still | ⟨choice, rfl, _⟩ | ⟨rfl, _⟩
  · cases next with
    | take choice => exact course.told_take terms choice
    | proceed => exact course.told_advance terms
    | _ =>
      rw [told, still.news]
      exact (List.append_nil _).symm
  · exact course.told_take terms choice
  · exact course.told_advance terms

theorem callers_play (course : Course κ σ) (turns : List (Turn κ σ)) :
    ((course.play terms turns).told.map Delivery.caller ++
        (course.play terms turns).core.registry.pending.map Pending.caller).Subperm
      (course.told.map Delivery.caller ++ course.core.registry.pending.map Pending.caller ++
        turns.filterMap Turn.caller?) := by
  induction turns generalizing course with
  | nil =>
    rw [List.filterMap_nil, List.append_nil]
    exact List.Subperm.refl _
  | cons next turns ih =>
    refine (ih (course.turn terms next)).trans ?_
    have one := course.core.callers_after terms course.now course.time (course.deed terms next)
    rw [← (course.turn_does terms next).1, caller?_deed] at one
    have head : (next :: turns).filterMap Turn.caller? =
        next.caller?.toList ++ turns.filterMap Turn.caller? := by
      cases called : next.caller? <;> simp [called]
    rw [head, ← List.append_assoc, List.subperm_append_right, told_turn, List.map_append,
      List.append_assoc, List.append_assoc, List.subperm_append_left]
    exact one

/-- Callers that each submit one request are told of it once at most, and not while it waits. -/
theorem nodup_callers_play (now : Instant) (time : Timestamp) (rest : σ) {turns : List (Turn κ σ)}
    (distinct : (turns.filterMap Turn.caller?).Nodup) :
    (((start terms now time rest).play terms turns).told.map Delivery.caller ++
      ((start terms now time rest).play terms turns).core.registry.pending.map
        Pending.caller).Nodup := by
  obtain ⟨callers, same, among⟩ := callers_play terms (start terms now time rest) turns
  exact (distinct.sublist among).perm same

end Course

end Tether.Session
