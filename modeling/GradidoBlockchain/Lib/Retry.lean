import GradidoBlockchain.Lib.Call

/-!
# Calls that can be repeated after a refusal

A call refused room on its way has written part of what it writes. `Retryable` says that this part
does no harm: repeated with room, the call ends exactly as it would have ended had it never been
refused. The proof goes through the steps of a call. Each step has a fact that is true once it has
succeeded, that makes the step do nothing the next time, and that the steps after it keep.
-/

namespace Fallible

open Call

variable {ε σ τ α β : Type}

/-- From a state with `inv`, a repetition of the call with room ends as the call would
have ended unrefused. -/
structure Resumable (inv : σ → Prop) (oom : ε) (call : Call ε σ α) : Prop where
  refused : ∀ {state left room rest}, inv state → call state room = (.error oom, left, rest) →
    inv left
  steady : ∀ {state left room rest outcome}, inv state → call state room = (outcome, left, rest) →
    outcome ≠ .error oom → call state [] = (outcome, left, [])
  resumes : ∀ {state left room rest}, inv state → call state room = (.error oom, left, rest) →
    call left [] = call state []

/-- Moreover the call keeps `inv`, and once `settled` holds of a result it gives that result
and changes nothing. -/
structure Retryable (inv : σ → Prop) (oom : ε) (call : Call ε σ α)
    (settled : α → σ → Prop) : Prop where
  keeps : Keeps inv call
  steady : ∀ {state left room rest outcome}, inv state → call state room = (outcome, left, rest) →
    outcome ≠ .error oom → call state [] = (outcome, left, [])
  resumes : ∀ {state left room rest}, inv state → call state room = (.error oom, left, rest) →
    call left [] = call state []
  settles : ∀ {state left room rest value}, inv state → call state room = (.ok value, left, rest) →
    settled value left
  idle : ∀ {state value}, inv state → settled value state → call state [] = (.ok value, state, [])

namespace Retryable

variable {inv : σ → Prop} {oom : ε}

theorem resumable {call : Call ε σ α} {settled : α → σ → Prop}
    (hcall : Retryable inv oom call settled) : Resumable inv oom call where
  refused := by
    intro state left room rest hinv hrun
    have hleft := hcall.keeps state room hinv
    rwa [hrun] at hleft
  steady := hcall.steady
  resumes := hcall.resumes

theorem under {call : Call ε σ α} {settled : α → σ → Prop} {other : σ → Prop}
    (hcall : Retryable inv oom call settled)
    (hother : Keeps (fun state => inv state ∧ other state) call) :
    Retryable (fun state => inv state ∧ other state) oom call settled where
  keeps := hother
  steady := fun hinv => hcall.steady hinv.1
  resumes := fun hinv => hcall.resumes hinv.1
  settles := fun hinv => hcall.settles hinv.1
  idle := fun hinv => hcall.idle hinv.1

/-- What a call does that needs no invariant, under any invariant it keeps. -/
theorem given {call : Call ε σ α} {settled : α → σ → Prop}
    (hcall : Retryable (fun _ => True) oom call settled) (hkeeps : Keeps inv call) :
    Retryable inv oom call settled where
  keeps := hkeeps
  steady := fun _ => hcall.steady trivial
  resumes := fun _ => hcall.resumes trivial
  settles := fun _ => hcall.settles trivial
  idle := fun _ => hcall.idle trivial

/-- A step without requests that fails only for reasons of its own, and that finds nothing left to
do where it has been. -/
theorem plain {step : σ → Except ε α × σ} {settled : α → σ → Prop}
    (hkeeps : ∀ state, inv state → inv (step state).2)
    (hcode : ∀ state, inv state → (step state).1 ≠ .error oom)
    (hsettles : ∀ state value, inv state → (step state).1 = .ok value →
      settled value (step state).2)
    (hidle : ∀ state value, inv state → settled value state → step state = (.ok value, state)) :
    Retryable inv oom (Call.plain step) settled where
  keeps := .plain hkeeps
  steady := by
    intro state left room rest outcome _ hrun _
    simp only [Call.plain, Prod.mk.injEq] at hrun ⊢
    exact ⟨hrun.1, hrun.2.1, trivial⟩
  resumes := by
    intro state left room rest hinv hrun
    simp only [Call.plain, Prod.mk.injEq] at hrun
    exact absurd hrun.1 (hcode state hinv)
  settles := by
    intro state left room rest value hinv hrun
    simp only [Call.plain, Prod.mk.injEq] at hrun
    rw [← hrun.2.1]
    exact hsettles state value hinv hrun.1
  idle := by
    intro state value hinv hsettled
    rw [Call.plain, hidle state value hinv hsettled]

theorem pure (value : α) :
    Retryable inv oom (Pure.pure value : Call ε σ α) (fun result _ => result = value) :=
  plain (fun _ hinv => hinv) (fun _ _ => nofun) (fun _ _ _ heq => (Except.ok.inj heq).symm)
    (fun _ _ _ heq => by rw [heq])

theorem gets (part : σ → α) :
    Retryable inv oom (Call.gets part) (fun value state => part state = value) :=
  plain (fun _ hinv => hinv) (fun _ _ => nofun) (fun _ _ _ heq => Except.ok.inj heq)
    (fun _ _ _ heq => by rw [heq])

theorem check {test : σ → Except ε α} (hcode : ∀ state, inv state → test state ≠ .error oom) :
    Retryable inv oom (Call.check test) (fun value state => test state = .ok value) :=
  plain (fun _ hinv => hinv) hcode (fun _ _ _ heq => heq) (fun _ _ _ heq => by rw [heq])

theorem write {change : σ → σ} {settled : σ → Prop}
    (hkeeps : ∀ state, inv state → inv (change state))
    (hsettles : ∀ state, inv state → settled (change state))
    (hidle : ∀ state, inv state → settled state → change state = state) :
    Retryable inv oom (Call.write change) (fun _ => settled) :=
  plain hkeeps (fun _ _ => nofun) (fun state _ hinv _ => hsettles state hinv)
    (fun state _ hinv hsettled => by rw [hidle state hinv hsettled])

/-- A growth that adds nothing where it has been made before. -/
theorem grow {change : σ → σ} {settled : σ → Prop}
    (hkeeps : ∀ state, inv state → inv (change state))
    (hsettles : ∀ state, inv state → settled (change state))
    (hidle : ∀ state, inv state → settled state → change state = state) :
    Retryable inv oom (Call.grow oom change) (fun _ => settled) where
  keeps := .grow hkeeps
  steady := by
    intro state left room rest outcome hinv hrun hne
    rcases room with _ | ⟨_ | _, room⟩ <;> cases hrun
    · rfl
    · exact absurd rfl hne
    · rfl
  resumes := by
    intro state left room rest _ hrun
    rw [(grow_error hrun).2]
  settles := by
    intro state left room rest _ hinv hrun
    rw [← grow_ok hrun]
    exact hsettles state hinv
  idle := by
    intro state _ hinv hsettled
    rw [grow_run_nil, hidle state hinv hsettled]

theorem growWith {change : σ → α × σ} {settled : α → σ → Prop}
    (hkeeps : ∀ state, inv state → inv (change state).2)
    (hsettles : ∀ state, inv state → settled (change state).1 (change state).2)
    (hidle : ∀ state value, inv state → settled value state → change state = (value, state)) :
    Retryable inv oom (Call.growWith oom change) settled where
  keeps := .growWith hkeeps
  steady := by
    intro state left room rest outcome hinv hrun hne
    rcases room with _ | ⟨_ | _, room⟩ <;> cases hrun
    · rfl
    · exact absurd rfl hne
    · rfl
  resumes := by
    intro state left room rest _ hrun
    rw [(growWith_error hrun).2]
  settles := by
    intro state left room rest value hinv hrun
    have hchange := growWith_ok hrun
    have hsettled := hsettles state hinv
    rwa [hchange] at hsettled
  idle := by
    intro state value hinv hsettled
    rw [growWith_run_nil, hidle state value hinv hsettled]

/-- The steps before a refused step have nothing left to do, so the call goes on at that step. -/
theorem bindResumable {call : Call ε σ α} {settled : α → σ → Prop} {next : α → Call ε σ β}
    (hcall : Retryable inv oom call settled)
    (hnext : ∀ value, Resumable (fun state => inv state ∧ settled value state) oom (next value)) :
    Resumable inv oom (call >>= next) where
  refused := by
    intro state left room rest hinv hrun
    have hmiddle := hcall.keeps state room hinv
    rcases bind_error.1 hrun with hfirst | ⟨value, middle, between, hfirst, hsecond⟩
    · rwa [hfirst] at hmiddle
    · rw [hfirst] at hmiddle
      exact ((hnext value).refused ⟨hmiddle, hcall.settles hinv hfirst⟩ hsecond).1
  steady := by
    intro state left room rest outcome hinv hrun hne
    have hmiddle := hcall.keeps state room hinv
    rw [bind_run] at hrun
    rcases hfirst : call state room with ⟨_ | value, middle, between⟩
    · rw [hfirst] at hrun
      cases hrun
      exact bind_run_error
        (hcall.steady hinv hfirst fun hcode => hne (congrArg Except.error (Except.error.inj hcode)))
    · rw [hfirst] at hrun hmiddle
      rw [bind_run_ok (hcall.steady hinv hfirst nofun)]
      exact (hnext value).steady ⟨hmiddle, hcall.settles hinv hfirst⟩ hrun hne
  resumes := by
    intro state left room rest hinv hrun
    have hmiddle := hcall.keeps state room hinv
    rcases bind_error.1 hrun with hfirst | ⟨value, middle, between, hfirst, hsecond⟩
    · rw [bind_run, bind_run, hcall.resumes hinv hfirst]
    · rw [hfirst] at hmiddle
      have hinner : inv middle ∧ settled value middle := ⟨hmiddle, hcall.settles hinv hfirst⟩
      have hleft := (hnext value).refused hinner hsecond
      rw [bind_run_ok (hcall.idle hleft.1 hleft.2), bind_run_ok (hcall.steady hinv hfirst nofun)]
      exact (hnext value).resumes hinner hsecond

theorem bind {call : Call ε σ α} {settled : α → σ → Prop} {next : α → Call ε σ β}
    {after : α → β → σ → Prop} (hcall : Retryable inv oom call settled)
    (hnext : ∀ value,
      Retryable (fun state => inv state ∧ settled value state) oom (next value) (after value)) :
    Retryable inv oom (call >>= next)
      (fun result state => ∃ value, settled value state ∧ after value result state) where
  keeps := by
    intro state room hinv
    have hmiddle := hcall.keeps state room hinv
    rw [bind_run]
    rcases hrun : call state room with ⟨_ | value, middle, between⟩
    · rwa [hrun] at hmiddle
    · rw [hrun] at hmiddle
      exact ((hnext value).keeps middle between ⟨hmiddle, hcall.settles hinv hrun⟩).1
  steady := (hcall.bindResumable fun value => (hnext value).resumable).steady
  resumes := (hcall.bindResumable fun value => (hnext value).resumable).resumes
  settles := by
    intro state left room rest result hinv hrun
    obtain ⟨value, middle, between, hfirst, hsecond⟩ := bind_ok.1 hrun
    have hmiddle := hcall.keeps state room hinv
    rw [hfirst] at hmiddle
    have hinner : inv middle ∧ settled value middle := ⟨hmiddle, hcall.settles hinv hfirst⟩
    have hkept := (hnext value).keeps middle between hinner
    rw [hsecond] at hkept
    exact ⟨value, hkept.2, (hnext value).settles hinner hsecond⟩
  idle := by
    rintro state result hinv ⟨value, hsettled, hafter⟩
    rw [bind_run_ok (hcall.idle hinv hsettled)]
    exact (hnext value).idle ⟨hinv, hsettled⟩ hafter

/-- A weaker account of what has been settled, as long as it still leaves the call nothing to do. -/
theorem settling {call : Call ε σ α} {settled other : α → σ → Prop}
    (hcall : Retryable inv oom call settled)
    (hto : ∀ value state, inv state → settled value state → other value state)
    (hof : ∀ value state, inv state → other value state → settled value state) :
    Retryable inv oom call other where
  keeps := hcall.keeps
  steady := hcall.steady
  resumes := hcall.resumes
  settles := by
    intro state left room rest value hinv hrun
    have hleft := hcall.keeps state room hinv
    rw [hrun] at hleft
    exact hto value left hleft (hcall.settles hinv hrun)
  idle := fun hinv hother => hcall.idle hinv (hof _ _ hinv hother)

/-- Every round of a loop settles its own item, and no round unsettles another's. -/
theorem forM {body : α → Call ε σ Unit} {settled : α → σ → Prop} {items : List α}
    (hbody : ∀ item ∈ items, Retryable inv oom (body item) (fun _ => settled item))
    (hkeeps : ∀ item ∈ items,
      ∀ other ∈ items, Keeps (fun state => inv state ∧ settled item state) (body other)) :
    Retryable inv oom (items.forM body) (fun _ state => ∀ item ∈ items, settled item state) := by
  induction items generalizing inv with
  | nil => exact (pure ()).settling (fun _ _ _ _ => nofun) (fun _ _ _ _ => rfl)
  | cons item items ih =>
      have hrest : Retryable (fun state => inv state ∧ settled item state) oom (items.forM body)
          (fun _ state => ∀ other ∈ items, settled other state) := ih ?_ ?_
      · refine ((hbody item List.mem_cons_self).bind fun _ => hrest).settling ?_ ?_
        · rintro _ state _ ⟨_, hitem, hitems⟩ other hother
          rcases List.mem_cons.1 hother with rfl | hother
          · exact hitem
          · exact hitems other hother
        · exact fun _ state _ hall => ⟨(), hall item List.mem_cons_self,
            fun other hother => hall other (List.mem_cons_of_mem _ hother)⟩
      · exact fun other hother => (hbody other (List.mem_cons_of_mem _ hother)).under
          (hkeeps item List.mem_cons_self other (List.mem_cons_of_mem _ hother))
      · intro first hfirst second hsecond state room hinv
        have hheld :=
          hkeeps item List.mem_cons_self second (List.mem_cons_of_mem _ hsecond) state room hinv.1
        exact ⟨hheld,
          (hkeeps first (List.mem_cons_of_mem _ hfirst) second (List.mem_cons_of_mem _ hsecond)
            state room ⟨hinv.1.1, hinv.2⟩).2⟩

/-- A retryable call on one part of a state is a retryable call on the state. -/
theorem within (part : σ → τ) (put : τ → σ → σ) {inner : τ → Prop} {call : Call ε τ α}
    {settled : α → τ → Prop} (hget : ∀ state left, part (put left state) = left)
    (hsame : ∀ state, put (part state) state = state)
    (hputput : ∀ state first second, put first (put second state) = put first state)
    (hcall : Retryable inner oom call settled) :
    Retryable (fun state => inner (part state)) oom (within part put call)
      (fun value state => settled value (part state)) where
  keeps := hcall.keeps.within (fun _ hinv => hinv) (fun state left _ hleft => by rwa [hget])
  steady := by
    intro state left room rest outcome hinv hrun hne
    rw [within_run] at hrun
    rcases hinner : call (part state) room with ⟨result, middle, between⟩
    rw [hinner] at hrun
    cases hrun
    rw [within_run, hcall.steady hinv hinner hne]
  resumes := by
    intro state left room rest hinv hrun
    obtain ⟨middle, hinner, rfl⟩ := within_error.1 hrun
    rw [within_run, within_run, hget, hcall.resumes hinv hinner, hputput]
  settles := by
    intro state left room rest value hinv hrun
    obtain ⟨middle, hinner, rfl⟩ := within_ok.1 hrun
    rw [hget]
    exact hcall.settles hinv hinner
  idle := by
    intro state value hinv hsettled
    rw [within_run, hcall.idle hinv hsettled, hsame]

theorem ite {condition : Prop} [Decidable condition] {call other : Call ε σ α}
    {settled : α → σ → Prop} (hcall : condition → Retryable inv oom call settled)
    (hother : ¬condition → Retryable inv oom other settled) :
    Retryable inv oom (if condition then call else other) settled := by
  split
  · exact hcall ‹_›
  · exact hother ‹_›

end Retryable

namespace Resumable

variable {inv : σ → Prop} {oom : ε}

/-- What a call does that needs no invariant, under any invariant it keeps. -/
theorem given {call : Call ε σ α} (hcall : Resumable (fun _ => True) oom call)
    (hkeeps : Keeps inv call) : Resumable inv oom call where
  refused := by
    intro state left room rest hinv hrun
    have hleft := hkeeps state room hinv
    rwa [hrun] at hleft
  steady := fun _ => hcall.steady trivial
  resumes := fun _ => hcall.resumes trivial

theorem congr {other : σ → Prop} {call : Call ε σ α} (hcall : Resumable inv oom call)
    (hiff : ∀ state, other state ↔ inv state) : Resumable other oom call := by
  have hsame : other = inv := funext fun state => propext (hiff state)
  rwa [hsame]

/-- A call that does all or nothing, under any invariant. -/
theorem unchanged {call : Call ε σ α} (hcall : Resumable (fun _ => True) oom call)
    (hsame : ∀ {state left room rest}, call state room = (.error oom, left, rest) → left = state) :
    Resumable inv oom call where
  refused := fun hinv hrun => hsame hrun ▸ hinv
  steady := fun _ => hcall.steady trivial
  resumes := fun _ => hcall.resumes trivial

/-- A refused growth has left the state as it was. -/
theorem grow (change : σ → σ) : Resumable inv oom (Call.grow oom change) where
  refused := fun hinv hrun => (grow_error hrun).2 ▸ hinv
  steady := by
    intro state left room rest outcome _ hrun hne
    rcases room with _ | ⟨_ | _, room⟩ <;> cases hrun
    · rfl
    · exact absurd rfl hne
    · rfl
  resumes := by
    intro state left room rest _ hrun
    rw [(grow_error hrun).2]

/-- A last step that asks for no room needs no trace of its own: it is never the
step that is refused. -/
theorem andThen {call : Call ε σ α} {last : α → σ → Except ε β × σ} (hcall : Resumable inv oom call)
    (hcode : ∀ value state, (last value state).1 ≠ .error oom) :
    Resumable inv oom (call >>= fun value => Call.plain (last value)) where
  refused := by
    intro state left room rest hinv hrun
    rcases bind_error.1 hrun with hfirst | ⟨value, middle, between, _, hsecond⟩
    · exact hcall.refused hinv hfirst
    · simp only [Call.plain, Prod.mk.injEq] at hsecond
      exact absurd hsecond.1 (hcode value middle)
  steady := by
    intro state left room rest outcome hinv hrun hne
    rw [bind_run] at hrun
    rcases hfirst : call state room with ⟨_ | value, middle, between⟩
    · rw [hfirst] at hrun
      cases hrun
      exact bind_run_error
        (hcall.steady hinv hfirst fun hcode => hne (congrArg Except.error (Except.error.inj hcode)))
    · rw [hfirst] at hrun
      rw [bind_run_ok (hcall.steady hinv hfirst nofun)]
      simp only [Call.plain, Prod.mk.injEq] at hrun ⊢
      exact ⟨hrun.1, hrun.2.1, trivial⟩
  resumes := by
    intro state left room rest hinv hrun
    rcases bind_error.1 hrun with hfirst | ⟨value, middle, between, _, hsecond⟩
    · rw [bind_run, bind_run, hcall.resumes hinv hfirst]
    · simp only [Call.plain, Prod.mk.injEq] at hsecond
      exact absurd hsecond.1 (hcode value middle)

/-- The same for a call on a part that is only there in some states. -/
theorem within (part : σ → τ) (put : τ → σ → σ) {outer : σ → Prop} {call : Call ε τ α}
    (hget : ∀ state left, outer state → part (put left state) = left)
    (hputput : ∀ state first second, put first (put second state) = put first state)
    (hrefused : ∀ {state left room rest}, outer state →
      call (part state) room = (.error oom, left, rest) → outer (put left state))
    (hcall : Resumable (fun _ => True) oom call) : Resumable outer oom (within part put call) where
  refused := by
    intro state left room rest houter hrun
    obtain ⟨middle, hinner, rfl⟩ := within_error.1 hrun
    exact hrefused houter hinner
  steady := by
    intro state left room rest outcome houter hrun hne
    rw [within_run] at hrun
    rcases hinner : call (part state) room with ⟨result, middle, between⟩
    rw [hinner] at hrun
    cases hrun
    rw [within_run, hcall.steady trivial hinner hne]
  resumes := by
    intro state left room rest houter hrun
    obtain ⟨middle, hinner, rfl⟩ := within_error.1 hrun
    rw [within_run, within_run, hget _ _ houter, hcall.resumes trivial hinner, hputput]

/-- A step that is passed over where a test finds it done, if the test is true when it has succeeded
and still false when it has been refused. -/
theorem unlessDone {test : σ → Bool} {body : Call ε σ Unit}
    (hbody : Resumable (fun state => inv state ∧ test state = false) oom body)
    (hkeeps : ∀ state room, inv state → test state = false → inv (body state room).2.1)
    (hdone : ∀ {state left room rest}, inv state → test state = false → body state room = (.ok (), left, rest) →
      test left = true) :
    Retryable inv oom (do let done ← gets test; if done then pure () else body)
        (fun _ state => test state = true) := by
  have hskip : ∀ {state : σ} (room : Room), test state = true →
      (do let done ← gets test; if done then pure () else body : Call ε σ Unit) state room =
          (.ok (), state, room) := by
    intro state room htest
    rw [bind_run_ok (gets_run _ _ _), htest]
    rfl
  have hmake : ∀ {state : σ} (room : Room), test state = false →
      (do let done ← gets test; if done then pure () else body : Call ε σ Unit) state room =
          body state room := by
    intro state room htest
    rw [bind_run_ok (gets_run _ _ _), htest]
    rfl
  refine ⟨?_, ?_, ?_, ?_, fun _ htest => hskip [] htest⟩
  · intro state room hinv
    by_cases htest : test state = true
    · rw [hskip room htest]
      exact hinv
    · rw [hmake room (Bool.eq_false_iff.2 htest)]
      exact hkeeps state room hinv (Bool.eq_false_iff.2 htest)
  · intro state left room rest outcome hinv hrun hne
    by_cases htest : test state = true
    · rw [hskip room htest] at hrun
      cases hrun
      exact hskip [] htest
    · rw [hmake room (Bool.eq_false_iff.2 htest)] at hrun
      rw [hmake [] (Bool.eq_false_iff.2 htest)]
      exact hbody.steady ⟨hinv, Bool.eq_false_iff.2 htest⟩ hrun hne
  · intro state left room rest hinv hrun
    by_cases htest : test state = true
    · rw [hskip room htest] at hrun
      cases hrun
    · have hinner : inv state ∧ test state = false := ⟨hinv, Bool.eq_false_iff.2 htest⟩
      rw [hmake room hinner.2] at hrun
      rw [hmake [] hinner.2, hmake [] (hbody.refused hinner hrun).2]
      exact hbody.resumes hinner hrun
  · intro state left room rest value hinv hrun
    by_cases htest : test state = true
    · rw [hskip room htest] at hrun
      cases hrun
      exact htest
    · rw [hmake room (Bool.eq_false_iff.2 htest)] at hrun
      exact hdone hinv (Bool.eq_false_iff.2 htest) hrun

end Resumable

/-! ### Repetition -/

/-- `call` fails any number of times, each time where the time before has left it. -/
inductive Failures (call : Call ε σ α) : σ → σ → Prop
  | none (state : σ) : Failures call state state
  | more {state middle left : σ} {room rest : Room} {code : ε} : Failures call state middle →
      call middle room = (.error code, left, rest) → Failures call state left

/-- A call that can succeed fails for want of room alone, and however often it does, with room it
ends as it would have ended at the start. -/
theorem Failures.same {inv : σ → Prop} {oom : ε} {call : Call ε σ α}
    (hcall : Resumable inv oom call) {state left good : σ} {value : α}
    (hfailures : Failures call state left) (hinv : inv state)
    (hgood : call state [] = (.ok value, good, [])) :
    inv left ∧ call left [] = (.ok value, good, []) := by
  induction hfailures with
  | none => exact ⟨hinv, hgood⟩
  | @more middle left room rest code _ hrun ih =>
      obtain ⟨hmiddle, hsame⟩ := ih
      by_cases hcode : code = oom
      · subst hcode
        exact ⟨hcall.refused hmiddle hrun, (hcall.resumes hmiddle hrun).trans hsame⟩
      · have hfails := hcall.steady hmiddle hrun fun heq => hcode (Except.error.inj heq)
        rw [hsame] at hfails
        cases hfails

end Fallible
