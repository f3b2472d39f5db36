import Skydriver.Lib.Interleaving

/-!
# Runs with conditions on what handlers see and hear

Some properties hold only of runs in which certain reads never find certain states, and in which the outside world
keeps to certain answers.  A step of such a run is a step of the machine, so everything known of all runs remains.  A
handler upholds a guard if it submits batches that meet it as long as the conditions hold; unlike a promise, what it
does after a batch may rest on the reply of that batch.
-/

namespace Moment

variable {σ μ : Type}

theorem Before.length_le {past now : Moment σ μ} (h : past.Before now) : past.trace.length ≤ now.trace.length := by
  induction h with
  | refl => exact le_rfl
  | advance cause after _ ih =>
      rw [Moment.advance, List.length_append]
      omega

/-- The state of an earlier moment is recorded in the trace at its place. -/
theorem Before.state_getElem {past now : Moment σ μ} (h : past.Before now) :
    past = now ∨ ∃ cause, now.trace[past.trace.length]? = some (cause, past.state) := by
  induction h with
  | refl => exact .inl rfl
  | @advance now cause after hpast ih =>
      right
      rcases ih with rfl | ⟨found, hfound⟩
      · exact ⟨cause, List.getElem?_concat_length⟩
      · refine ⟨found, ?_⟩
        rw [Moment.advance, List.getElem?_append_left (List.getElem?_eq_some_iff.mp hfound).1, hfound]

/-- What holds now and of the states recorded since `past` holds of every moment in between. -/
theorem Before.forall_between {past middle now : Moment σ μ} (hpast : past.Before middle) (hmiddle : middle.Before now)
    (test : σ → Bool) (hnow : test now.state = true)
    (htrace : ((now.trace.drop past.trace.length).all fun step => test step.2) = true) : test middle.state = true := by
  rcases hmiddle.state_getElem with rfl | ⟨cause, hstep⟩
  · exact hnow
  · rw [List.all_eq_true] at htrace
    apply htrace (cause, middle.state)
    obtain ⟨extra, hlength⟩ := Nat.exists_eq_add_of_le hpast.length_le
    have hfound : (now.trace.drop past.trace.length)[extra]? = some (cause, middle.state) := by
      rw [List.getElem?_drop, ← hlength, hstep]
    exact List.mem_of_getElem? hfound

/-- Every two moments on the way to `now` are related. -/
def Related (relate : σ → σ → Prop) (now : Moment σ μ) : Prop :=
  ∀ first second : Moment σ μ, first.Before second → second.Before now → relate first.state second.state

/-- A reflexive and transitive relation that every step keeps relates all moments of a run. -/
theorem Related.advance {relate : σ → σ → Prop} (hrefl : ∀ state, relate state state)
    (htrans : ∀ {first second third}, relate first second → relate second third → relate first third)
    {now : Moment σ μ} {cause : Option μ} {after : σ} (h : Related relate now) (hstep : relate now.state after) :
    Related relate (now.advance cause after) := by
  intro first second hfirst hsecond
  rcases before_advance_iff.mp hsecond with rfl | hbefore
  · rcases before_advance_iff.mp hfirst with rfl | hpast
    · exact hrefl after
    · exact htrans (h first now hpast (.refl now)) hstep
  · exact h first second hfirst hbefore

end Moment

namespace Program

variable {σ μ ρ ε ι α : Type}

section Upholds

variable (execute : μ → σ → Option (σ × ρ)) (sees : (σ → Program σ μ ρ ε ι α) → σ → Prop) (hears : ε → ι → Prop)
  (guard : μ → Moment σ μ → Prop)

/-- From `moment` on, the program submits only batches that meet their guard, if its reads and the answers it gets are
as the conditions say. -/
def Upholds : Program σ μ ρ ε ι α → Moment σ μ → Prop
  | .done _, _ => True
  | .read next, moment => ∀ later, moment.Before later → sees next later.state → (next later.state).Upholds later
  | .write batch next, moment => ∀ later, moment.Before later → guard batch later ∧ (next none).Upholds later ∧
      ∀ after reply, execute batch later.state = some (after, reply) →
        (next (some reply)).Upholds (later.advance (some batch) after)
  | .call effect next, moment => ∀ later, moment.Before later → ∀ answer, hears effect answer →
      (next answer).Upholds later

variable {execute sees hears guard}

theorem Upholds.later {program : Program σ μ ρ ε ι α} {moment after : Moment σ μ} (hbefore : moment.Before after)
    (h : program.Upholds execute sees hears guard moment) : program.Upholds execute sees hears guard after := by
  cases program with
  | done value => trivial
  | read next => exact fun later hlater => h later (hbefore.trans hlater)
  | write batch next => exact fun later hlater => h later (hbefore.trans hlater)
  | call effect next => exact fun later hlater => h later (hbefore.trans hlater)

/-- What is promised in every run is upheld. -/
theorem Promises.upholds {allow : ε → Moment σ μ → Prop} {post : α → Moment σ μ → Prop} {program : Program σ μ ρ ε ι α}
    {moment : Moment σ μ} (h : program.Promises guard allow post moment) :
    program.Upholds execute sees hears guard moment := by
  induction program generalizing moment with
  | done value => trivial
  | read next ih => exact fun later hlater _ => ih _ (h later hlater)
  | write batch next ih =>
      intro later hlater
      obtain ⟨hguard, hnext⟩ := h later hlater
      refine ⟨hguard, ih none (hnext none), ?_⟩
      intro after reply _
      exact (ih (some reply) (hnext (some reply))).later ((Moment.Before.refl later).advance _ _)
  | call effect next ih => exact fun later hlater answer _ => ih answer ((h later hlater).2 answer)

end Upholds

end Program

namespace Machine

variable {σ μ ρ ε ι α : Type} (machine : Machine σ μ ρ ε ι α) (permit : Moment σ μ → μ → Prop)
  (sees : (σ → Program σ μ ρ ε ι α) → σ → Prop) (hears : ε → ι → Prop)

/-- One step of a machine whose handlers see and hear only what the conditions admit. -/
inductive ObservedStep : System σ μ ρ ε ι α → System σ μ ρ ε ι α → Prop where
  | start {system : System σ μ ρ ε ι α} {program : Program σ μ ρ ε ι α} (hstart : machine.starts program) :
      ObservedStep system { system with threads := system.threads ++ [program] }
  | drift {system : System σ μ ρ ε ι α} {after : σ} (hdrift : machine.drift system.state after) :
      ObservedStep system { system with toMoment := system.advance none after }
  | read {system : System σ μ ρ ε ι α} {index : Nat} {next : σ → Program σ μ ρ ε ι α}
      (hthread : system.threads[index]? = some (.read next)) (hsees : sees next system.state) :
      ObservedStep system { system with threads := system.threads.set index (next system.state) }
  | commit {system : System σ μ ρ ε ι α} {index : Nat} {batch : μ} {next : Option ρ → Program σ μ ρ ε ι α}
      {after : σ} {reply : ρ} {reported : Option ρ} (hthread : system.threads[index]? = some (.write batch next))
      (hpermit : permit system.toMoment batch)
      (hexecute : machine.execute batch system.state = some (after, reply))
      (hreported : reported = some reply ∨ reported = none) :
      ObservedStep system ⟨system.advance (some batch) after, system.threads.set index (next reported)⟩
  | abort {system : System σ μ ρ ε ι α} {index : Nat} {batch : μ} {next : Option ρ → Program σ μ ρ ε ι α}
      (hthread : system.threads[index]? = some (.write batch next)) :
      ObservedStep system { system with threads := system.threads.set index (next none) }
  | answer {system : System σ μ ρ ε ι α} {index : Nat} {effect : ε} {next : ι → Program σ μ ρ ε ι α} {value : ι}
      (hthread : system.threads[index]? = some (.call effect next)) (hhears : hears effect value) :
      ObservedStep system { system with threads := system.threads.set index (next value) }

/-- The runs in which handlers see and hear only what the conditions admit. -/
def ObservedRuns : System σ μ ρ ε ι α → System σ μ ρ ε ι α → Prop :=
  Relation.ReflTransGen (machine.ObservedStep permit sees hears)

variable {machine permit sees hears}

theorem ObservedStep.step {before after : System σ μ ρ ε ι α} (h : machine.ObservedStep permit sees hears before after) :
    machine.Step permit before after := by
  cases h with
  | start hstart => exact .start hstart
  | drift hdrift => exact .drift hdrift
  | read hthread _ => exact .read hthread
  | commit hthread hpermit hexecute hreported => exact .commit hthread hpermit hexecute hreported
  | abort hthread => exact .abort hthread
  | answer hthread _ => exact .answer _ hthread

section Upheld

variable {guard : μ → Moment σ μ → Prop}

/-- Every running handler upholds the guard. -/
def Upheld (machine : Machine σ μ ρ ε ι α) (sees : (σ → Program σ μ ρ ε ι α) → σ → Prop) (hears : ε → ι → Prop)
    (guard : μ → Moment σ μ → Prop) (system : System σ μ ρ ε ι α) : Prop :=
  ∀ program ∈ system.threads, program.Upholds machine.execute sees hears guard system.toMoment

private theorem upheld_set {threads : List (Program σ μ ρ ε ι α)} {index : Nat} {next : Program σ μ ρ ε ι α}
    {moment later : Moment σ μ} (hbefore : moment.Before later)
    (h : ∀ program ∈ threads, program.Upholds machine.execute sees hears guard moment)
    (hnext : next.Upholds machine.execute sees hears guard later) :
    ∀ program ∈ threads.set index next, program.Upholds machine.execute sees hears guard later := by
  intro program hmem
  rcases List.mem_or_eq_of_mem_set hmem with hold | rfl
  · exact (h program hold).later hbefore
  · exact hnext

theorem upheld_step
    (hstarts : ∀ program, machine.starts program → ∀ moment, program.Upholds machine.execute sees hears guard moment)
    {before after : System σ μ ρ ε ι α} (h : machine.Upheld sees hears guard before)
    (hstep : machine.ObservedStep permit sees hears before after) : machine.Upheld sees hears guard after := by
  cases hstep with
  | start hstart =>
      intro program hmem
      rcases List.mem_append.mp hmem with hold | hnew
      · exact h program hold
      · rw [List.mem_singleton.mp hnew]
        exact hstarts _ hstart _
  | drift _ => exact fun program hmem => (h program hmem).later ((Moment.Before.refl _).advance _ _)
  | read hthread hsees =>
      exact upheld_set (.refl _) h (h _ (List.mem_of_getElem? hthread) _ (.refl _) hsees)
  | @commit _ batch _ after _ _ hthread _ hexecute hreported =>
      have hadvance := (Moment.Before.refl before.toMoment).advance (some batch) after
      obtain ⟨_, hnone, hsome⟩ := h _ (List.mem_of_getElem? hthread) _ (.refl _)
      apply upheld_set hadvance h
      rcases hreported with rfl | rfl
      · exact hsome _ _ hexecute
      · exact hnone.later hadvance
  | abort hthread => exact upheld_set (.refl _) h (h _ (List.mem_of_getElem? hthread) _ (.refl _)).2.1
  | answer hthread hhears => exact upheld_set (.refl _) h (h _ (List.mem_of_getElem? hthread) _ (.refl _) _ hhears)

theorem upheld_of_runs
    (hstarts : ∀ program, machine.starts program → ∀ moment, program.Upholds machine.execute sees hears guard moment)
    {start : σ} {system : System σ μ ρ ε ι α} (hrun : machine.ObservedRuns permit sees hears (initial start) system) :
    machine.Upheld sees hears guard system := by
  induction hrun with
  | refl =>
      intro program hmem
      cases hmem
  | tail _ hstep ih => exact upheld_step hstarts ih hstep

/-- A property that drift and every permitted batch with its guard preserve holds at each moment of such a run. -/
theorem upheld_invariant
    (hstarts : ∀ program, machine.starts program → ∀ moment, program.Upholds machine.execute sees hears guard moment)
    {inv : Moment σ μ → Prop}
    (hdrift : ∀ moment after, inv moment → machine.drift moment.state after → inv (moment.advance none after))
    (hcommit : ∀ moment batch after reply, inv moment → guard batch moment →
      machine.execute batch moment.state = some (after, reply) → inv (moment.advance (some batch) after))
    {start : σ} {system : System σ μ ρ ε ι α} (hstart : inv ⟨start, []⟩)
    (hrun : machine.ObservedRuns permit sees hears (initial start) system) : inv system.toMoment := by
  induction hrun with
  | refl => exact hstart
  | tail hrun hstep ih =>
      have hupheld := upheld_of_runs hstarts hrun
      cases hstep with
      | start _ => exact ih
      | drift hchange => exact hdrift _ _ ih hchange
      | read _ _ => exact ih
      | commit hthread _ hexecute _ =>
          exact hcommit _ _ _ _ ih (hupheld _ (List.mem_of_getElem? hthread) _ (.refl _)).1 hexecute
      | abort _ => exact ih
      | answer _ _ => exact ih

end Upheld

section Schedule

variable {τ : Type} (machine) (serve : τ → Program σ μ ρ ε ι α) (seen : (σ → Program σ μ ρ ε ι α) → σ → Bool)
  (heard : ε → ι → Bool)

/-- What an event shows to a handler, if anything, passes the tests. -/
def eventObserved (system : System σ μ ρ ε ι α) : Event τ σ ι → Bool
  | .advance index =>
      match system.threads[index]? with
      | some (.read next) => seen next system.state
      | _ => true
  | .reply index value =>
      match system.threads[index]? with
      | some (.call effect _) => heard effect value
      | _ => true
  | _ => true

/-- All that a list of events shows to handlers passes the tests. -/
def observesOnly : System σ μ ρ ε ι α → List (Event τ σ ι) → Bool
  | _, [] => true
  | system, event :: events =>
      eventObserved seen heard system event && observesOnly (machine.perform serve system event) events

variable {machine serve}

/-- A handler about to submit a batch that executes submits it next. -/
theorem toMoment_perform_write {system : System σ μ ρ ε ι α} {index : Nat} {batch : μ}
    {next : Option ρ → Program σ μ ρ ε ι α} {after : σ} {reply : ρ}
    (hthread : system.threads[index]? = some (.write batch next))
    (hexecute : machine.execute batch system.state = some (after, reply)) :
    (machine.perform serve system (.advance index)).toMoment = system.advance (some batch) after := by
  simp only [perform, hthread, hexecute]

/-- A schedule that shows handlers only what the conditions admit is such a run. -/
theorem observedRuns_performAll (hserve : ∀ request, machine.starts (serve request))
    (hpermitted : ∀ moment batch, permit moment batch) (hsees : ∀ next state, seen next state = true → sees next state)
    (hhears : ∀ effect answer, heard effect answer = true → hears effect answer)
    {start system : System σ μ ρ ε ι α} (events : List (Event τ σ ι))
    (hdrift : ∀ change, Event.become change ∈ events → ∀ state, machine.drift state (change state))
    (honly : machine.observesOnly serve seen heard system events = true)
    (hrun : machine.ObservedRuns permit sees hears start system) :
    machine.ObservedRuns permit sees hears start (machine.performAll serve system events) := by
  induction events generalizing system with
  | nil => exact hrun
  | cons event events ih =>
      rw [observesOnly, Bool.and_eq_true] at honly
      apply ih
      · intro change hmem
        exact hdrift change (List.mem_cons_of_mem _ hmem)
      · exact honly.2
      have htest := honly.1
      cases event with
      | request request => exact hrun.tail (.start (hserve request))
      | become change => exact hrun.tail (.drift (hdrift change List.mem_cons_self _))
      | advance index =>
          rw [perform]
          cases hthread : system.threads[index]? with
          | none => exact hrun
          | some program =>
              rw [eventObserved, hthread] at htest
              cases program with
              | done value => exact hrun
              | read next => exact hrun.tail (.read hthread (hsees _ _ htest))
              | write batch next =>
                  dsimp only
                  cases hexecute : machine.execute batch system.state with
                  | none => exact hrun.tail (.abort hthread)
                  | some result => exact hrun.tail (.commit hthread (hpermitted _ _) hexecute (.inl rfl))
              | call effect next => exact hrun
      | reply index value =>
          rw [perform]
          cases hthread : system.threads[index]? with
          | none => exact hrun
          | some program =>
              rw [eventObserved, hthread] at htest
              cases program with
              | done _ => exact hrun
              | read _ => exact hrun
              | write _ _ => exact hrun
              | call effect next => exact hrun.tail (.answer hthread (hhears _ _ htest))

end Schedule

end Machine
