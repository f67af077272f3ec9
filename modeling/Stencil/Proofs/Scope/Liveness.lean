import Stencil.Proofs.Scope.Histories

/-!
# Live handles in a history

A handle is live in a context for exactly as long as the frame that it was given out for stays open.
Positions are used again and again, so this rests on identities and serial numbers only ever being
given out once.
-/

namespace Stencil.History

variable {history : History} {time earlier later : Nat} {name : String} {context : Context}
  {handle : ScopeHandle}

/-- At a time, the handle is that of the current frame in the context of a name. -/
def Issues (history : History) (time : Nat) (name : String) (handle : ScopeHandle) : Prop :=
  ∃ context, (history.state time).context? name = some context ∧ context.current = handle

/-- At a time, the frame at the position of the handle is taken off the context of a name. -/
def Closes (history : History) (time : Nat) (name : String) (handle : ScopeHandle) : Prop :=
  history.action time = .pop name ∧ ∃ context,
    (history.state time).context? name = some context ∧ context.frames ≠ [] ∧
      handle.index = context.currentIndex

/-- At a time, the handle is live in some context. -/
def Live (history : History) (time : Nat) (handle : ScopeHandle) : Prop :=
  ∃ name context, (history.state time).context? name = some context ∧ context.isLive handle

theorem effect (htime : time < history.length) :
    (history.state time).Effect (history.action time) (history.state (time + 1)) :=
  Workspace.effect_of_perform (history.step time htime)

theorem formed (htime : time ≤ history.length) : (history.state time).Formed := by
  induction time with
  | zero =>
    obtain ⟨evaluator, hstart⟩ := history.start
    rw [hstart]
    exact Workspace.formed_empty evaluator
  | succ time ih => exact (effect htime).formed (ih (Nat.le_of_lt htime))

theorem past_of_le (hle : earlier ≤ time) (htime : time ≤ history.length)
    (hpast : (history.state earlier).Past handle) : (history.state time).Past handle := by
  induction time, hle using Nat.le_induction with
  | base => exact hpast
  | succ time _ ih => exact (effect htime).past (ih (Nat.le_of_lt htime))

theorem survives_iff (hcontext : (history.state time).context? name = some context) :
    context.Survives (history.action time = .pop name) handle ↔
      ¬history.Closes time name handle := by
  constructor
  · rintro hsurvives ⟨hpop, context', hcontext', hroot, hindex⟩
    obtain rfl := Option.some.inj (hcontext.symm.trans hcontext')
    exact (hsurvives hpop).elim hroot fun hne => hne hindex
  · intro hstays hpop
    by_contra hclosed
    rw [not_or, not_not] at hclosed
    exact hstays ⟨hpop, context, hcontext, hclosed⟩

/-- A live handle was given out by its context. -/
theorem issued_of_isLive (htime : time ≤ history.length)
    (hcontext : (history.state time).context? name = some context) (hlive : context.isLive handle) :
    ∃ issued ≤ time, history.Issues issued name handle := by
  induction time generalizing context with
  | zero =>
    obtain ⟨evaluator, hstart⟩ := history.start
    rw [hstart] at hcontext
    cases hcontext
  | succ time ih =>
    rcases (effect htime).isLive_or_issued hcontext hlive with
      ⟨before, hbefore, -, hlive, -⟩ | ⟨rfl, -⟩
    · obtain ⟨issued, hle, hissues⟩ := ih (Nat.le_of_lt htime) hbefore hlive
      exact ⟨issued, Nat.le_succ_of_le hle, hissues⟩
    · exact ⟨time + 1, le_rfl, context, hcontext, rfl⟩

/-- The frame of a live handle has not been closed since the handle was given out. -/
theorem not_closes_of_isLive {between : Nat} (htime : time ≤ history.length)
    (hcontext : (history.state time).context? name = some context) (hlive : context.isLive handle)
    (hbetween : between < time) (hpast : (history.state between).Past handle) :
    ¬history.Closes between name handle := by
  induction time generalizing context with
  | zero => exact absurd hbetween (Nat.not_lt_zero _)
  | succ time ih =>
    have hle : between ≤ time := Nat.le_of_lt_succ hbetween
    rcases (effect htime).isLive_or_issued hcontext hlive with
      ⟨before, hbefore, -, hlive, hsurvives⟩ | ⟨-, hnew⟩
    · rcases hle.lt_or_eq with hlt | rfl
      · exact ih (Nat.le_of_lt htime) hbefore hlive hlt
      · exact (survives_iff hbefore).1 hsurvives
    · exact absurd (past_of_le hle (Nat.le_of_lt htime) hpast) hnew

/-- From one time to another, the frame at the position of a handle is not closed. -/
def OpenSince (history : History) (issued time : Nat) (name : String) (handle : ScopeHandle) :
    Prop :=
  ∀ between, issued ≤ between → between < time → ¬history.Closes between name handle

theorem past_of_issues (htime : time ≤ history.length) (hissues : history.Issues time name handle) :
    (history.state time).Past handle := by
  obtain ⟨issuer, hissuer, rfl⟩ := hissues
  exact Workspace.past_current (formed htime) hissuer

/-- A handle given out by a context stays live in it until its frame is closed. -/
theorem isLive_of_issued (hle : earlier ≤ time) (htime : time ≤ history.length)
    (hissues : history.Issues earlier name handle)
    (hopen : history.OpenSince earlier time name handle)
    (hcontext : (history.state time).context? name = some context)
    (hidentity : handle.context = context.identity) : context.isLive handle := by
  have hearlier := past_of_issues (hle.trans htime) hissues
  induction time, hle using Nat.le_induction generalizing context with
  | base =>
    obtain ⟨issuer, hissuer, rfl⟩ := hissues
    obtain rfl := Option.some.inj (hissuer.symm.trans hcontext)
    exact issuer.isLive_current
  | succ time hle ih =>
    have hpast := past_of_le hle (Nat.le_of_lt htime) hearlier
    rcases (effect htime).origin hcontext with ⟨bindings, rfl, -⟩ | ⟨before, hbefore, hmoves⟩
    · exact absurd (hidentity ▸ hpast.context) (Nat.lt_irrefl _)
    · have hlive : before.isLive handle := by
        refine ih (Nat.le_of_lt htime) (fun between hissued hbetween => ?_) hbefore
          (hidentity.trans hmoves.identity)
        exact hopen between hissued (Nat.lt_succ_of_lt hbetween)
      exact hmoves.isLive hlive ((survives_iff hbefore).2 (hopen time hle (Nat.lt_succ_self _)))

theorem isLive_iff_issued (htime : time ≤ history.length)
    (hcontext : (history.state time).context? name = some context) :
    context.isLive handle ↔ handle.context = context.identity ∧
      (∃ issued ≤ time, history.Issues issued name handle) ∧
      ∀ issued ≤ time, history.Issues issued name handle →
        history.OpenSince issued time name handle := by
  constructor
  · intro hlive
    refine ⟨(Context.isLive_iff.1 hlive).1, issued_of_isLive htime hcontext hlive,
      fun issued hissued hissues between hle hlt =>
        not_closes_of_isLive htime hcontext hlive hlt ?_⟩
    exact past_of_le hle (hlt.le.trans htime) (past_of_issues (hissued.trans htime) hissues)
  · rintro ⟨hidentity, ⟨issued, hle, hissues⟩, hopen⟩
    exact isLive_of_issued hle htime hissues (hopen issued hle hissues) hcontext hidentity

/-- A handle that was given out and is not live any more is never live again. -/
theorem live_of_live_of_past (hle : time ≤ later) (hlater : later ≤ history.length)
    (hpast : (history.state time).Past handle) (hlive : history.Live later handle) :
    history.Live time handle := by
  induction later, hle using Nat.le_induction with
  | base => exact hlive
  | succ later hle ih =>
    obtain ⟨name, context, hcontext, hlive⟩ := hlive
    have hpast := past_of_le hle (Nat.le_of_lt hlater) hpast
    rcases (effect hlater).isLive_or_issued hcontext hlive with
      ⟨before, hbefore, -, hlive, -⟩ | ⟨-, hnew⟩
    · exact ih (Nat.le_of_lt hlater) ⟨name, before, hbefore, hlive⟩
    · exact absurd hpast hnew

theorem past_of_live (htime : time ≤ history.length) (hlive : history.Live time handle) :
    (history.state time).Past handle := by
  obtain ⟨name, context, hcontext, hlive⟩ := hlive
  exact (formed htime).past_of_isLive hcontext hlive

theorem eq_of_isLive (htime : time ≤ history.length) {name' : String} {context' : Context}
    (hcontext : (history.state time).context? name = some context)
    (hcontext' : (history.state time).context? name' = some context')
    (hlive : context.isLive handle) (hlive' : context'.isLive handle) : name = name' :=
  (formed htime).distinct name context name' context' hcontext hcontext'
    ((Context.isLive_iff.1 hlive).1.symm.trans (Context.isLive_iff.1 hlive').1)

/-- Nothing that the host brings in holds a macro whose scope is still to be given out. -/
def Sound (history : History) : Prop :=
  ∀ time < history.length,
    (history.state time).Brings (history.state time).Past (history.action time)

theorem reachable (hsound : history.Sound) (htime : time ≤ history.length) :
    (history.state time).Reachable := by
  induction time with
  | zero =>
    obtain ⟨evaluator, hstart⟩ := history.start
    rw [hstart]
    exact .empty evaluator
  | succ time ih =>
    exact .step (history.action time) (ih (Nat.le_of_lt htime)) (hsound time htime)
      (history.step time htime)

end Stencil.History
