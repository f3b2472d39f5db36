import Skydriver.Lib.Interleaving

/-!
# Programs that run alone and may stop anywhere

A program that holds a lock runs undisturbed: nobody changes the store between its steps.  What stays uncertain is the
world under it.  A write may be refused, or reported as failed although it took effect; the outside world answers as
`Circumstances` allow; and the program may be cut off before any of its steps.  `Runs` is this behaviour.  It goes from
moment to moment, so that every write is recorded with the state in which it was made.

`Ensures` is the proof rule: a guard for every write and a postcondition for every value, under all surroundings.  What
guarded writes preserve then holds after any number of programs, whether they came to an end or not.
-/

/-- What may happen to a program that runs alone. -/
structure Circumstances (σ μ ρ ε ι : Type) where
  execute : μ → σ → Option (σ × ρ)
  /-- The write may be refused, or reported as failed after it took effect. -/
  refuses : μ → σ → Prop
  /-- The call may receive this answer. -/
  answers : ε → σ → ι → Prop

namespace Program

variable {σ μ ρ ε ι α β δ : Type} (world : Circumstances σ μ ρ ε ι) (guard : μ → σ → Prop)

/-- One undisturbed execution: it ends with a value, or with none if it was cut off. -/
inductive Runs : Program σ μ ρ ε ι α → Moment σ μ → Option α → Moment σ μ → Prop where
  | cut {program : Program σ μ ρ ε ι α} {moment : Moment σ μ} : Runs program moment none moment
  | done {value : α} {moment : Moment σ μ} : Runs (.done value) moment (some value) moment
  | read {next : σ → Program σ μ ρ ε ι α} {moment last : Moment σ μ} {ending : Option α}
      (hnext : Runs (next moment.state) moment ending last) : Runs (.read next) moment ending last
  | refused {batch : μ} {next : Option ρ → Program σ μ ρ ε ι α} {moment last : Moment σ μ} {ending : Option α}
      (hrefused : world.refuses batch moment.state ∨ world.execute batch moment.state = none)
      (hnext : Runs (next none) moment ending last) : Runs (.write batch next) moment ending last
  | committed {batch : μ} {next : Option ρ → Program σ μ ρ ε ι α} {moment last : Moment σ μ} {after : σ} {reply : ρ}
      {reported : Option ρ} {ending : Option α} (hexecute : world.execute batch moment.state = some (after, reply))
      (hreported : reported = some reply ∨ (reported = none ∧ world.refuses batch moment.state))
      (hnext : Runs (next reported) (moment.advance (some batch) after) ending last) :
      Runs (.write batch next) moment ending last
  | answered {effect : ε} {next : ι → Program σ μ ρ ε ι α} {moment last : Moment σ μ} {answer : ι}
      {ending : Option α} (hanswer : world.answers effect moment.state answer)
      (hnext : Runs (next answer) moment ending last) : Runs (.call effect next) moment ending last

/-- From `state` on, every write meets its guard and every value the postcondition. -/
def Ensures : Program σ μ ρ ε ι α → (α → σ → Prop) → σ → Prop
  | .done value, post, state => post value state
  | .read next, post, state => (next state).Ensures post state
  | .write batch next, post, state =>
      guard batch state ∧
      (world.refuses batch state ∨ world.execute batch state = none → (next none).Ensures post state) ∧
      ∀ after reply, world.execute batch state = some (after, reply) →
        (next (some reply)).Ensures post after ∧ (world.refuses batch state → (next none).Ensures post after)
  | .call effect next, post, state => ∀ answer, world.answers effect state answer → (next answer).Ensures post state

variable {world guard}

theorem Ensures.mono {program : Program σ μ ρ ε ι α} {strong weak : α → σ → Prop} {state : σ}
    (h : program.Ensures world guard strong state) (himp : ∀ value after, strong value after → weak value after) :
    program.Ensures world guard weak state := by
  induction program generalizing state with
  | done value => exact himp value state h
  | read next ih => exact ih state h
  | write batch next ih =>
      obtain ⟨hguard, hrefused, hcommitted⟩ := h
      refine ⟨hguard, fun hnone => ih none (hrefused hnone), fun after reply hexecute => ?_⟩
      obtain ⟨hreported, hlost⟩ := hcommitted after reply hexecute
      exact ⟨ih (some reply) hreported, fun hrefuses => ih none (hlost hrefuses)⟩
  | call effect next ih => exact fun answer hanswer => ih answer (h answer hanswer)

theorem ensures_bind {program : Program σ μ ρ ε ι α} {rest : α → Program σ μ ρ ε ι β} {post : β → σ → Prop}
    {state : σ} :
    (program >>= rest).Ensures world guard post state ↔
      program.Ensures world guard (fun value after => (rest value).Ensures world guard post after) state := by
  induction program generalizing state with
  | done value => rfl
  | read next ih => exact ih state
  | write batch next ih =>
      simp only [write_bind, Ensures, ih]
  | call effect next ih =>
      simp only [call_bind, Ensures, ih]

/-- Two postconditions of one program hold together. -/
theorem Ensures.and {program : Program σ μ ρ ε ι α} {post post' : α → σ → Prop} {state : σ}
    (h : program.Ensures world guard post state) (h' : program.Ensures world guard post' state) :
    program.Ensures world guard (fun value after => post value after ∧ post' value after) state := by
  induction program generalizing state with
  | done value => exact ⟨h, h'⟩
  | read next ih => exact ih state h h'
  | write batch next ih =>
      obtain ⟨hguard, hrefused, hcommitted⟩ := h
      obtain ⟨_, hrefused', hcommitted'⟩ := h'
      refine ⟨hguard, fun hnone => ih none (hrefused hnone) (hrefused' hnone), fun after reply hexecute => ?_⟩
      obtain ⟨hreported, hlost⟩ := hcommitted after reply hexecute
      obtain ⟨hreported', hlost'⟩ := hcommitted' after reply hexecute
      exact ⟨ih (some reply) hreported hreported', fun hrefuses => ih none (hlost hrefuses) (hlost' hrefuses)⟩
  | call effect next ih => exact fun answer hanswer => ih answer (h answer hanswer) (h' answer hanswer)

/-- What guarded writes preserve holds wherever an execution stops, and a value that it returned meets the
postcondition. -/
theorem Runs.invariant {Holds : Moment σ μ → Prop}
    (hstep : ∀ moment batch after reply, Holds moment → guard batch moment.state →
      world.execute batch moment.state = some (after, reply) → Holds (moment.advance (some batch) after))
    {program : Program σ μ ρ ε ι α} {post : α → σ → Prop} {first last : Moment σ μ} {ending : Option α}
    (hrun : program.Runs world first ending last) (hensures : program.Ensures world guard post first.state)
    (hfirst : Holds first) : Holds last ∧ ∀ value, ending = some value → post value last.state := by
  induction hrun with
  | cut => exact ⟨hfirst, by simp⟩
  | done => exact ⟨hfirst, fun value hvalue => Option.some.inj hvalue ▸ hensures⟩
  | read _ ih => exact ih hensures hfirst
  | refused hrefused _ ih => exact ih (hensures.2.1 hrefused) hfirst
  | committed hexecute hreported _ ih =>
      have hafter := hstep _ _ _ _ hfirst hensures.1 hexecute
      obtain ⟨hreply, hlost⟩ := hensures.2.2 _ _ hexecute
      rcases hreported with rfl | ⟨rfl, hrefuses⟩
      · exact ih hreply hafter
      · exact ih (hlost hrefuses) hafter
  | answered hanswer _ ih => exact ih (hensures _ hanswer) hfirst

/-- A value that an execution returned meets every postcondition that the program ensures. -/
theorem Runs.ensured {program : Program σ μ ρ ε ι α} {post : α → σ → Prop} {first last : Moment σ μ} {value : α}
    (hrun : program.Runs world first (some value) last) (hensures : program.Ensures world guard post first.state) :
    post value last.state := by
  have hstep : ∀ (moment : Moment σ μ) batch after reply, True → guard batch moment.state →
      world.execute batch moment.state = some (after, reply) → True := fun _ _ _ _ _ _ _ => trivial
  exact (hrun.invariant hstep hensures trivial).2 value rfl

/-- Running alone with a fixed answer to each call is one of the executions, if the answers are allowed. -/
theorem runs_runAlone {reply : ε → ι} (hreply : ∀ effect state, world.answers effect state (reply effect))
    (program : Program σ μ ρ ε ι α) (moment : Moment σ μ) :
    ∃ last, program.Runs world moment (some (program.runAlone world.execute reply moment.state).1) last ∧
      last.state = (program.runAlone world.execute reply moment.state).2 := by
  induction program generalizing moment with
  | done value => exact ⟨moment, .done, rfl⟩
  | read next ih =>
      obtain ⟨last, hrun, hlast⟩ := ih moment.state moment
      exact ⟨last, .read hrun, hlast⟩
  | write batch next ih =>
      cases hexecute : world.execute batch moment.state with
      | none =>
          obtain ⟨last, hrun, hlast⟩ := ih none moment
          simp only [runAlone, hexecute]
          exact ⟨last, .refused (.inr hexecute) hrun, hlast⟩
      | some result =>
          obtain ⟨after, answer⟩ := result
          obtain ⟨last, hrun, hlast⟩ := ih (some answer) (moment.advance (some batch) after)
          simp only [runAlone, hexecute]
          exact ⟨last, .committed hexecute (.inl rfl) hrun, hlast⟩
  | call effect next ih =>
      obtain ⟨last, hrun, hlast⟩ := ih (reply effect) moment
      exact ⟨last, .answered (hreply effect moment.state) hrun, hlast⟩

/-- An execution with a fixed answer to each call, cut off after some steps. -/
def runSteps (execute : μ → σ → Option (σ × ρ)) (reply : ε → ι) :
    Nat → Program σ μ ρ ε ι α → Moment σ μ → Option α × Moment σ μ
  | 0, _, moment => (none, moment)
  | _ + 1, .done value, moment => (some value, moment)
  | fuel + 1, .read next, moment => runSteps execute reply fuel (next moment.state) moment
  | fuel + 1, .write batch next, moment =>
      match execute batch moment.state with
      | none => runSteps execute reply fuel (next none) moment
      | some (after, answer) => runSteps execute reply fuel (next (some answer)) (moment.advance (some batch) after)
  | fuel + 1, .call effect next, moment => runSteps execute reply fuel (next (reply effect)) moment

theorem runs_runSteps {reply : ε → ι} (hreply : ∀ effect state, world.answers effect state (reply effect)) (fuel : Nat)
    (program : Program σ μ ρ ε ι α) (moment : Moment σ μ) :
    program.Runs world moment (runSteps world.execute reply fuel program moment).1
      (runSteps world.execute reply fuel program moment).2 := by
  induction fuel generalizing program moment with
  | zero => exact .cut
  | succ fuel ih =>
      cases program with
      | done value => exact .done
      | read next => exact .read (ih _ _)
      | write batch next =>
          rw [runSteps]
          cases hexecute : world.execute batch moment.state with
          | none => exact .refused (.inr hexecute) (ih _ _)
          | some result => exact .committed hexecute (.inl rfl) (ih _ _)
      | call effect next => exact .answered (hreply effect moment.state) (ih _ _)

/-! ### Programs that may fail -/

variable (world guard) in
/-- From `state` on, every write meets its guard, every success meets `post` and every failure `lost`. -/
def Achieves (operation : ExceptT δ (Program σ μ ρ ε ι) α) (post : α → σ → Prop) (lost : δ → σ → Prop) (state : σ) :
    Prop :=
  operation.run.Ensures world guard (fun result after =>
    match result with
    | .ok value => post value after
    | .error error => lost error after) state

theorem Achieves.mono {operation : ExceptT δ (Program σ μ ρ ε ι) α} {strong weak : α → σ → Prop}
    {strong' weak' : δ → σ → Prop} {state : σ} (h : Achieves world guard operation strong strong' state)
    (himp : ∀ value after, strong value after → weak value after)
    (hlost : ∀ error after, strong' error after → weak' error after) :
    Achieves world guard operation weak weak' state :=
  Ensures.mono h fun result after hresult => match result, hresult with
    | .ok value, hvalue => himp value after hvalue
    | .error error, herror => hlost error after herror

theorem achieves_bind {operation : ExceptT δ (Program σ μ ρ ε ι) α}
    {rest : α → ExceptT δ (Program σ μ ρ ε ι) β} {post : β → σ → Prop} {lost : δ → σ → Prop} {state : σ} :
    Achieves world guard (operation >>= rest) post lost state ↔
      Achieves world guard operation (fun value after => Achieves world guard (rest value) post lost after) lost
        state := by
  have hrun : (operation >>= rest).run = operation.run >>= ExceptT.bindCont rest := rfl
  rw [Achieves, hrun, ensures_bind]
  constructor
  · exact fun h => Ensures.mono h fun result after hresult => match result, hresult with
      | .ok _, hvalue => hvalue
      | .error _, herror => herror
  · exact fun h => Ensures.mono h fun result after hresult => match result, hresult with
      | .ok _, hvalue => hvalue
      | .error _, herror => herror

@[simp] theorem achieves_pure {value : α} {post : α → σ → Prop} {lost : δ → σ → Prop} {state : σ} :
    Achieves world guard (pure value : ExceptT δ (Program σ μ ρ ε ι) α) post lost state ↔ post value state := Iff.rfl

@[simp] theorem achieves_throw {error : δ} {post : α → σ → Prop} {lost : δ → σ → Prop} {state : σ} :
    Achieves world guard (throw error : ExceptT δ (Program σ μ ρ ε ι) α) post lost state ↔ lost error state := Iff.rfl

end Program

/-! ### Sessions -/

section Sessions

variable {σ μ ρ ε ι α : Type}

/-- One program after another, each of them brought to its end or cut off. -/
inductive Session (world : Circumstances σ μ ρ ε ι) (starts : Program σ μ ρ ε ι α → Prop) (initial : σ) :
    Moment σ μ → Prop where
  | fresh : Session world starts initial ⟨initial, []⟩
  | call {program : Program σ μ ρ ε ι α} {first last : Moment σ μ} {ending : Option α}
      (hfirst : Session world starts initial first) (hstart : starts program)
      (hrun : program.Runs world first ending last) : Session world starts initial last

/-- What guarded writes preserve holds at the end of every session. -/
theorem Session.invariant {world : Circumstances σ μ ρ ε ι} {guard : μ → σ → Prop}
    {starts : Program σ μ ρ ε ι α → Prop} {initial : σ} {Holds : Moment σ μ → Prop} (hfresh : Holds ⟨initial, []⟩)
    (hstep : ∀ moment batch after reply, Holds moment → guard batch moment.state →
      world.execute batch moment.state = some (after, reply) → Holds (moment.advance (some batch) after))
    (hstarts : ∀ program moment, starts program → Holds moment →
      program.Ensures world guard (fun _ _ => True) moment.state)
    {moment : Moment σ μ} (h : Session world starts initial moment) : Holds moment := by
  induction h with
  | fresh => exact hfresh
  | call _ hstart hrun ih => exact (hrun.invariant hstep (hstarts _ _ hstart ih) ih).1

end Sessions
