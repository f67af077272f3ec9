import Stencil.Proofs.Evaluation.Alike

/-!
# Macros do not see their callers

A call has the same outcome whatever frames its caller has opened and whatever is bound there, as
long as no macro in reach was declared in one of those frames.
-/

namespace Stencil

namespace Context

variable {base further : Context} {handle : ScopeHandle} {index : Nat} {name : String}
  {value : Value}

/-- The second context is the first one with further frames on top, in which names may be bound. -/
inductive Extends (base : Context) : Context → Prop where
  | refl : Extends base base
  | inherit {further : Context} : Extends base further → Extends base further.inherit
  | inheritFrom {further child : Context} (handle : ScopeHandle) : Extends base further →
      further.inheritFrom? handle = some child → Extends base child
  | bind {further : Context} (index : Nat) (name : String) (value : Value) :
      Extends base further → base.currentIndex < index →
      Extends base (further.bindAt index name value)

/-- The handle has been given out, and not for one of the frames that the second context has on top
of the first. -/
def Spares (base further : Context) (handle : ScopeHandle) : Prop :=
  handle.context = base.identity → handle.serial < further.nextSerial ∧
    handle.serial ∉ further.serials.drop base.serials.length

theorem rebindAt_of_length_lt {frames : List Frame} (hindex : frames.length < index) :
    rebindAt index name value frames = frames := by
  induction frames with
  | nil => rfl
  | cons frame below ih =>
    rw [List.length_cons] at hindex
    rw [rebindAt, if_neg (by omega), ih (by omega)]

/-- Binding a name above some frames changes nothing but bindings above them. -/
theorem exists_rebindAt_append {below : List Frame} (hindex : below.length < index)
    (name : String) (value : Value) (above : List Frame) :
    ∃ above', rebindAt index name value (above ++ below) = above' ++ below ∧
      above'.map Frame.serial = above.map Frame.serial := by
  induction above with
  | nil => exact ⟨[], rebindAt_of_length_lt hindex, rfl⟩
  | cons frame above ih =>
    obtain ⟨above', hbelow, hserials⟩ := ih
    rw [List.cons_append, rebindAt]
    split
    · exact ⟨{ frame with bindings := Table.insert name value frame.bindings } :: above, rfl, rfl⟩
    · refine ⟨frame :: above', ?_, ?_⟩
      · rw [hbelow, List.cons_append]
      · rw [List.map_cons, List.map_cons, hserials]

/-- The frames on top have all the serial numbers that were given out for them, and no others. -/
theorem Extends.above (hextends : base.Extends further) : ∃ top, base.Above further top ∧
    ∀ serial, base.nextSerial ≤ serial → serial < further.nextSerial →
      serial ∈ top.map Frame.serial := by
  have hpush {context : Context} (parent : Nat) (hcontext : ∃ top, base.Above context top ∧
      ∀ serial, base.nextSerial ≤ serial → serial < context.nextSerial →
        serial ∈ top.map Frame.serial) :
      ∃ top, base.Above (context.push parent) top ∧
        ∀ serial, base.nextSerial ≤ serial → serial < (context.push parent).nextSerial →
          serial ∈ top.map Frame.serial := by
    obtain ⟨top, habove, hserials⟩ := hcontext
    refine ⟨_, habove.pushBound parent [], fun serial hle hlt => ?_⟩
    rcases Nat.lt_succ_iff_lt_or_eq.1 hlt with hbefore | rfl
    · exact List.mem_cons_of_mem _ (hserials serial hle hbefore)
    · exact List.mem_cons_self
  induction hextends with
  | refl => exact ⟨[], (AgesTo.refl base).above, fun _ hle hlt => absurd hlt (Nat.not_lt.2 hle)⟩
  | inherit _ ih => exact hpush _ ih
  | inheritFrom handle _ hchild ih =>
    unfold inheritFrom? at hchild
    split at hchild
    · cases hchild
      exact hpush _ ih
    · cases hchild
  | bind index name value _ hindex ih =>
    obtain ⟨top, habove, hserials⟩ := ih
    obtain ⟨top', hframes, hsame⟩ := exists_rebindAt_append hindex name value top
    rw [bindAt, if_neg (Nat.ne_zero_of_lt hindex)]
    refine ⟨top', ⟨habove.identity, habove.root, ?_, ?_, habove.nextSerial⟩, hsame ▸ hserials⟩
    · rw [← hframes, ← habove.frames]
    · rw [← List.forall_mem_map (P := (base.nextSerial ≤ ·)), hsame, List.forall_mem_map]
      exact habove.serial

theorem Extends.spares_iff (hextends : base.Extends further) :
    base.Spares further handle ↔ base.Past handle := by
  obtain ⟨top, habove, hserials⟩ := hextends.above
  have hdrop : further.serials.drop base.serials.length = (top.map Frame.serial).reverse := by
    simp [serials, habove.frames]
  unfold Spares Past
  rw [hdrop]
  refine forall_congr' fun hidentity => ⟨fun hspares => ?_, fun hlt => ⟨?_, fun hmem => ?_⟩⟩
  · by_contra hlater
    exact hspares.2 (List.mem_reverse.2 (hserials _ (Nat.not_lt.1 hlater) hspares.1))
  · exact hlt.trans_le habove.nextSerial
  · obtain ⟨frame, hframe, hserial⟩ := List.mem_map.1 (List.mem_reverse.1 hmem)
    have hle := habove.serial frame hframe
    omega

end Context

namespace Evaluation

open Context

/-- From a context that a host can bring about, and from one with further frames on top of it, a
call has the same outcome, if neither the macro nor any other in its reach was declared in one of
those frames and the host makes up none that was. -/
theorem macro_does_not_see_its_caller {workspace : Workspace} {name : String}
    {base further : Context} {evaluator : Evaluator} {call : MacroCall}
    (hreachable : workspace.Reachable) (hbase : workspace.context? name = some base)
    (hextends : base.Extends further) (hkeeps : evaluator.Keeps (base.Spares further))
    (hcall : call.Within (base.Spares further)) (depth : Nat) :
    ((ExceptT.run (invoke evaluator depth call)).run further).map Prod.fst =
      ((ExceptT.run (invoke evaluator depth call)).run base).map Prod.fst := by
  have hspares : base.Spares further = base.Past :=
    funext fun _ => propext hextends.spares_iff
  rw [hspares] at hkeeps hcall
  obtain ⟨top, habove, -⟩ := hextends.above
  have hlive := habove.isLive hcall.scope
  cases depth with
  | zero => rfl
  | succ depth =>
    have hcalls : TiedOutcome (fun _ _ => True) (SameResult Eq fun _ => True)
        ((ExceptT.run (invoke evaluator (depth + 1) call)).run base)
        ((ExceptT.run (invoke evaluator (depth + 1) call)).run further) := by
      refine tiedOutcome_callMacro (fun _ => trivial) hlive.symm trivial (fun _ => trivial)
        fun hscope bound hbind => ?_
      have hbound : Table.Within base.Past (Table.ofList bound) :=
        Table.within_nil.insertAll (Signature.within_bind hcall.defaults hcall.arguments hbind)
      have hindex : call.scope.index ≤ base.frames.length := index_le_of_isLive hscope
      have halike : Alike base top _ (base.pushBound call.scope.index (Table.ofList bound))
          (further.pushBound call.scope.index (Table.ofList bound)) :=
        alike_of_call habove hindex (hreachable.within_past hbase) hbound
      exact ⟨_, fun _ _ _ => trivial, tied_execute (lawful_alike hkeeps _)
        (fun _ => couples_invoke (lawful_alike hkeeps) nests_alike depth _) "" _ halike⟩
    exact (map_fst_eq_of_tiedOutcome hcalls fun _ _ => eq_of_sameResult).symm

/-- A call of a macro that is declared at the root and writes what it finds under a name. -/
def peekCall : MacroCall where
  definition := ⟨"peek", [], [], [.output (.name ⟨.name, "secret", ⟨0, 6, 1, 1⟩⟩ "secret")]⟩
  signature := ⟨[], [], false, false⟩
  scope := ⟨0, 0, 0⟩
  arguments := {}

/-- What its caller binds under the name is not what the macro writes. -/
theorem macro_does_not_see_its_caller_secret :
    ((ExceptT.run (invoke .bare 1 peekCall)).run
      ((Context.ofBindings 0 []).inherit.define "secret" (.string "s"))).map Prod.fst =
        some (.ok (.safe "")) := by
  have hreachable : Workspace.Reachable (.create (.empty .bare) "main" []) :=
    .step (.create "main" []) (.empty .bare) Table.within_nil rfl
  have hextends : (Context.ofBindings 0 []).Extends
      ((Context.ofBindings 0 []).inherit.define "secret" (.string "s")) :=
    .bind 1 "secret" (.string "s") (.inherit .refl) Nat.one_pos
  have hcall : peekCall.Within ((Context.ofBindings 0 []).Spares
      ((Context.ofBindings 0 []).inherit.define "secret" (.string "s"))) :=
    ⟨fun _ => by decide, nofun, Arguments.within_empty⟩
  have hbase : (Workspace.create (.empty .bare) "main" []).context? "main" =
      some (Context.ofBindings 0 []) := rfl
  exact (macro_does_not_see_its_caller hreachable hbase hextends (Evaluator.keeps_bare _) hcall
    1).trans rfl

end Evaluation

end Stencil
