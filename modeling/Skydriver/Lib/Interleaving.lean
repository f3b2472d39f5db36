import Mathlib

/-!
# Interleaved request handlers over one shared store

A handler reads the store, submits atomic batches and calls the outside world, in that many separate steps.  A machine
runs any number of handlers over one store: each step advances one handler, starts another one, or lets the store
drift by changes made elsewhere.  A batch that commits may still be reported as failed, and a batch may fail for
reasons of its own.

A moment is a state of the store together with everything that led to it, so that a property of a moment can speak of
earlier states.  Two proof rules follow.  `Machine.invariant` is for properties that every committed batch preserves,
whatever it carries.  `Machine.guarded_invariant` is for properties that depend on how a batch came about: each handler
promises a guard for every batch it submits, in terms of the earlier moments at which it read.
-/

/-- A handler over a store `σ`, submitting batches `μ` whose commit replies `ρ`, and calling the outside world with
`ε` to receive `ι`. -/
inductive Program (σ μ ρ ε ι α : Type) where
  | done (value : α)
  | read (next : σ → Program σ μ ρ ε ι α)
  | write (batch : μ) (next : Option ρ → Program σ μ ρ ε ι α)
  | call (effect : ε) (next : ι → Program σ μ ρ ε ι α)

namespace Program

variable {σ μ ρ ε ι α β : Type}

/-- Run `rest` on the value of a program. -/
def bind : Program σ μ ρ ε ι α → (α → Program σ μ ρ ε ι β) → Program σ μ ρ ε ι β
  | .done value, rest => rest value
  | .read next, rest => .read fun state => (next state).bind rest
  | .write batch next, rest => .write batch fun reply => (next reply).bind rest
  | .call effect next, rest => .call effect fun answer => (next answer).bind rest

instance : Monad (Program σ μ ρ ε ι) where
  pure := .done
  bind := .bind

/-- One read of the store. -/
def query (find : σ → α) : Program σ μ ρ ε ι α := .read fun state => .done (find state)

/-- One atomic batch. -/
def submit (batch : μ) : Program σ μ ρ ε ι (Option ρ) := .write batch .done

/-- One request to the outside world. -/
def request (effect : ε) : Program σ μ ρ ε ι ι := .call effect .done

@[simp] theorem done_bind (value : α) (rest : α → Program σ μ ρ ε ι β) :
    ((.done value : Program σ μ ρ ε ι α) >>= rest) = rest value := rfl

@[simp] theorem pure_eq_done (value : α) : (pure value : Program σ μ ρ ε ι α) = .done value := rfl

@[simp] theorem read_bind (next : σ → Program σ μ ρ ε ι α) (rest : α → Program σ μ ρ ε ι β) :
    (.read next >>= rest) = .read fun state => next state >>= rest := rfl

@[simp] theorem write_bind (batch : μ) (next : Option ρ → Program σ μ ρ ε ι α)
    (rest : α → Program σ μ ρ ε ι β) :
    (.write batch next >>= rest) = .write batch fun reply => next reply >>= rest := rfl

@[simp] theorem call_bind (effect : ε) (next : ι → Program σ μ ρ ε ι α) (rest : α → Program σ μ ρ ε ι β) :
    (.call effect next >>= rest) = .call effect fun answer => next answer >>= rest := rfl

@[simp] theorem query_bind (find : σ → α) (rest : α → Program σ μ ρ ε ι β) :
    (query find >>= rest) = .read fun state => rest (find state) := rfl

@[simp] theorem submit_bind (batch : μ) (rest : Option ρ → Program σ μ ρ ε ι β) :
    (submit batch >>= rest) = .write batch rest := rfl

/-- Run a program alone against a store that nobody else touches: every batch either commits or is rejected by the
store, and the outside world answers with `reply`. -/
def runAlone (execute : μ → σ → Option (σ × ρ)) (reply : ε → ι) : Program σ μ ρ ε ι α → σ → α × σ
  | .done value, state => (value, state)
  | .read next, state => (next state).runAlone execute reply state
  | .write batch next, state =>
      match execute batch state with
      | none => (next none).runAlone execute reply state
      | some (after, answer) => (next (some answer)).runAlone execute reply after
  | .call effect next, state => (next (reply effect)).runAlone execute reply state

/-- The program submits only batches of a kind, whatever it reads and hears. -/
def Submits (kind : μ → Prop) : Program σ μ ρ ε ι α → Prop
  | .done _ => True
  | .read next => ∀ state, (next state).Submits kind
  | .write batch next => kind batch ∧ ∀ answer, (next answer).Submits kind
  | .call _ next => ∀ answer, (next answer).Submits kind

theorem submits_any (program : Program σ μ ρ ε ι α) : program.Submits fun _ => True := by
  induction program with
  | done value => exact trivial
  | read next ih => exact ih
  | write batch next ih => exact ⟨trivial, ih⟩
  | call effect next ih => exact ih

/-- What every batch of the kind keeps is kept by a program that runs alone. -/
theorem Submits.runAlone {kind : μ → Prop} {relate : σ → σ → Prop} {execute : μ → σ → Option (σ × ρ)} {reply : ε → ι}
    (hrefl : ∀ state, relate state state)
    (htrans : ∀ {first second third}, relate first second → relate second third → relate first third)
    (hstep : ∀ batch state after answer, kind batch → execute batch state = some (after, answer) → relate state after)
    {program : Program σ μ ρ ε ι α} (h : program.Submits kind) (state : σ) :
    relate state (program.runAlone execute reply state).2 := by
  induction program generalizing state with
  | done value => exact hrefl state
  | read next ih => exact ih state (h state) state
  | write batch next ih =>
      rw [Program.runAlone]
      cases hexecute : execute batch state with
      | none => exact ih none (h.2 none) state
      | some result =>
          exact htrans (hstep batch state result.1 result.2 h.1 hexecute) (ih (some result.2) (h.2 _) result.1)
  | call effect next ih => exact ih (reply effect) (h (reply effect)) state

/-- The value of a program whose reads all see the same state; none if it does more than read. -/
def readOn : Program σ μ ρ ε ι α → σ → Option α
  | .done value, _ => some value
  | .read next, state => (next state).readOn state
  | .write _ _, _ => none
  | .call _ _, _ => none

@[simp] theorem readOn_done (value : α) (state : σ) :
    (.done value : Program σ μ ρ ε ι α).readOn state = some value := rfl

@[simp] theorem readOn_read (next : σ → Program σ μ ρ ε ι α) (state : σ) :
    (Program.read next).readOn state = (next state).readOn state := rfl

theorem readOn_bind (program : Program σ μ ρ ε ι α) (rest : α → Program σ μ ρ ε ι β) (state : σ) :
    (program >>= rest).readOn state = (program.readOn state).bind fun value => (rest value).readOn state := by
  induction program with
  | done value => rfl
  | read next ih => exact ih state
  | write batch next ih => rfl
  | call effect next ih => rfl

end Program

/-- A state of the store with its past: the states before it, each with the batch that ended it, or none if the store
drifted. -/
structure Moment (σ μ : Type) where
  state : σ
  trace : List (Option μ × σ)

namespace Moment

variable {σ μ : Type}

/-- The next moment. -/
def advance (moment : Moment σ μ) (cause : Option μ) (after : σ) : Moment σ μ :=
  ⟨after, moment.trace ++ [(cause, moment.state)]⟩

/-- `past` is `now` or led to it. -/
inductive Before : Moment σ μ → Moment σ μ → Prop where
  | refl (moment : Moment σ μ) : Before moment moment
  | advance {past now : Moment σ μ} (cause : Option μ) (after : σ) (h : Before past now) :
      Before past (now.advance cause after)

theorem Before.trans {first second third : Moment σ μ} (hfirst : first.Before second) (hsecond : second.Before third) :
    first.Before third := by
  induction hsecond with
  | refl => exact hfirst
  | advance cause after _ ih => exact ih.advance cause after

theorem advance_inj {left right : Moment σ μ} {cause cause' : Option μ} {after after' : σ}
    (h : left.advance cause after = right.advance cause' after') : left = right ∧ cause = cause' ∧ after = after' := by
  have htrace := List.append_inj' (congrArg Moment.trace h) rfl
  have hstep := Prod.mk.inj (List.singleton_inj.mp htrace.2)
  refine ⟨?_, hstep.1, congrArg Moment.state h⟩
  cases left
  cases right
  rw [Moment.mk.injEq]
  exact ⟨hstep.2, htrace.1⟩

theorem before_advance_iff {past now : Moment σ μ} {cause : Option μ} {after : σ} :
    past.Before (now.advance cause after) ↔ past = now.advance cause after ∨ past.Before now := by
  constructor
  · intro h
    generalize htarget : now.advance cause after = target at h
    cases h with
    | refl => exact .inl rfl
    | advance _ _ hpast => exact .inr ((advance_inj htarget).1 ▸ hpast)
  · intro h
    rcases h with heq | hpast
    · exact heq ▸ .refl _
    · exact hpast.advance cause after

/-- Of two moments before a third, one is before the other. -/
theorem Before.total {first second now : Moment σ μ} (hfirst : first.Before now) (hsecond : second.Before now) :
    first.Before second ∨ second.Before first := by
  induction hfirst with
  | refl => exact .inr hsecond
  | advance cause after hpast ih =>
      rcases before_advance_iff.mp hsecond with heq | hbefore
      · exact .inl (heq ▸ hpast.advance cause after)
      · exact ih hbefore

/-- Nothing led to a moment without trace. -/
theorem before_start_iff {past : Moment σ μ} {start : σ} : past.Before ⟨start, []⟩ ↔ past = ⟨start, []⟩ := by
  constructor
  · intro h
    generalize htarget : (⟨start, []⟩ : Moment σ μ) = target at h
    cases h with
    | refl => rfl
    | advance cause after _ => simp [Moment.advance] at htarget
  · intro h
    exact h ▸ .refl _

/-- The states on the way are those of the trace. -/
theorem Before.state_mem {past now : Moment σ μ} (h : past.Before now) :
    past.state = now.state ∨ ∃ step ∈ now.trace, step.2 = past.state := by
  induction h with
  | refl => exact .inl rfl
  | @advance now cause after _ ih =>
      refine .inr ?_
      rcases ih with heq | ⟨step, hmem, heq⟩
      · exact ⟨(cause, now.state), by simp [Moment.advance], heq.symm⟩
      · exact ⟨step, List.mem_append_left _ hmem, heq⟩

end Moment

namespace Program

variable {σ μ ρ ε ι α β : Type} (guard : μ → Moment σ μ → Prop) (allow : ε → Moment σ μ → Prop)

/-- From `moment` on, however the store evolves between its steps, the program submits only batches that meet their
guard, calls the outside world only where that is allowed, and returns only values with the property `post`. -/
def Promises : Program σ μ ρ ε ι α → (α → Moment σ μ → Prop) → Moment σ μ → Prop
  | .done value, post, moment => post value moment
  | .read next, post, moment => ∀ later, moment.Before later → (next later.state).Promises post later
  | .write batch next, post, moment => ∀ later, moment.Before later →
      guard batch later ∧ ∀ reply, (next reply).Promises post later
  | .call effect next, post, moment => ∀ later, moment.Before later →
      allow effect later ∧ ∀ answer, (next answer).Promises post later

variable {guard allow}

theorem Promises.mono {program : Program σ μ ρ ε ι α} {weak strong : α → Moment σ μ → Prop} {moment : Moment σ μ}
    (h : program.Promises guard allow strong moment)
    (himp : ∀ value later, moment.Before later → strong value later → weak value later) :
    program.Promises guard allow weak moment := by
  induction program generalizing moment with
  | done value => exact himp value moment (.refl _) h
  | read next ih =>
      exact fun later hlater => ih _ (h later hlater) fun value last hlast => himp value last (hlater.trans hlast)
  | write batch next ih =>
      exact fun later hlater => ⟨(h later hlater).1, fun reply => ih reply ((h later hlater).2 reply)
        fun value last hlast => himp value last (hlater.trans hlast)⟩
  | call effect next ih =>
      exact fun later hlater => ⟨(h later hlater).1, fun answer => ih answer ((h later hlater).2 answer)
        fun value last hlast => himp value last (hlater.trans hlast)⟩

/-- What a program promises it still promises after the store has evolved. -/
theorem Promises.later {program : Program σ μ ρ ε ι α} {post : α → Moment σ μ → Prop} {moment after : Moment σ μ}
    (hpost : ∀ value first second, first.Before second → post value first → post value second)
    (hbefore : moment.Before after) (h : program.Promises guard allow post moment) :
    program.Promises guard allow post after := by
  cases program with
  | done value => exact hpost value _ _ hbefore h
  | read next => exact fun later hlater => h later (hbefore.trans hlater)
  | write batch next => exact fun later hlater => h later (hbefore.trans hlater)
  | call effect next => exact fun later hlater => h later (hbefore.trans hlater)

theorem Promises.bind {program : Program σ μ ρ ε ι α} {rest : α → Program σ μ ρ ε ι β} {post : β → Moment σ μ → Prop}
    {moment : Moment σ μ}
    (h : program.Promises guard allow (fun value later => (rest value).Promises guard allow post later) moment) :
    (program >>= rest).Promises guard allow post moment := by
  induction program generalizing moment with
  | done value => exact h
  | read next ih => exact fun later hlater => ih _ (h later hlater)
  | write batch next ih => exact fun later hlater => ⟨(h later hlater).1, fun reply => ih reply ((h later hlater).2 reply)⟩
  | call effect next ih =>
      exact fun later hlater => ⟨(h later hlater).1, fun answer => ih answer ((h later hlater).2 answer)⟩

/-! ### Programs that only read -/

/-- Run by reads alone from `first`, the program may return `value` at `last`. -/
inductive Yields : Program σ μ ρ ε ι α → Moment σ μ → α → Moment σ μ → Prop where
  | done {value : α} {moment : Moment σ μ} : Yields (.done value) moment value moment
  | read {next : σ → Program σ μ ρ ε ι α} {first later last : Moment σ μ} {value : α} (hlater : first.Before later)
      (hnext : Yields (next later.state) later value last) : Yields (.read next) first value last

/-- The program submits nothing and calls nobody. -/
inductive ReadOnly : Program σ μ ρ ε ι α → Prop where
  | done (value : α) : ReadOnly (.done value)
  | read {next : σ → Program σ μ ρ ε ι α} (hnext : ∀ state, ReadOnly (next state)) : ReadOnly (.read next)

theorem ReadOnly.bind {program : Program σ μ ρ ε ι α} {rest : α → Program σ μ ρ ε ι β} (h : program.ReadOnly)
    (hrest : ∀ value, (rest value).ReadOnly) : (program >>= rest).ReadOnly := by
  induction h with
  | done value => exact hrest value
  | read _ ih => exact .read ih

theorem Yields.before {program : Program σ μ ρ ε ι α} {first last : Moment σ μ} {value : α}
    (h : program.Yields first value last) : first.Before last := by
  induction h with
  | done => exact .refl _
  | read hlater _ ih => exact hlater.trans ih

/-- A program that only reads promises exactly what it may return. -/
theorem ReadOnly.promises {program : Program σ μ ρ ε ι α} (h : program.ReadOnly) (moment : Moment σ μ) :
    program.Promises guard allow (fun value last => program.Yields moment value last) moment := by
  induction h generalizing moment with
  | done value => exact .done
  | read _ ih =>
      exact fun later hlater => (ih later.state later).mono fun _ _ _ hyield => .read hlater hyield

theorem yields_read_iff {next : σ → Program σ μ ρ ε ι α} {first last : Moment σ μ} {value : α} :
    (Program.read next).Yields first value last ↔
      ∃ later, first.Before later ∧ (next later.state).Yields later value last := by
  constructor
  · intro h
    cases h with
    | read hlater hnext => exact ⟨_, hlater, hnext⟩
  · intro h
    obtain ⟨later, hlater, hnext⟩ := h
    exact .read hlater hnext

theorem yields_done_iff {value found : α} {first last : Moment σ μ} :
    (Program.done value : Program σ μ ρ ε ι α).Yields first found last ↔ found = value ∧ last = first := by
  constructor
  · intro h
    cases h
    exact ⟨rfl, rfl⟩
  · intro h
    rw [h.1, h.2]
    exact .done

theorem yields_bind_iff {program : Program σ μ ρ ε ι α} {rest : α → Program σ μ ρ ε ι β} {first last : Moment σ μ}
    {value : β} :
    (program >>= rest).Yields first value last ↔
      ∃ middle found, program.Yields first found middle ∧ (rest found).Yields middle value last := by
  induction program generalizing first with
  | done found =>
      simp only [done_bind, yields_done_iff]
      exact ⟨fun h => ⟨first, found, ⟨rfl, rfl⟩, h⟩, fun ⟨_, _, ⟨hfound, hmiddle⟩, h⟩ => hfound ▸ hmiddle ▸ h⟩
  | read next ih =>
      simp only [read_bind, yields_read_iff, ih]
      constructor
      · intro h
        obtain ⟨later, hlater, middle, found, hfound, hrest⟩ := h
        exact ⟨middle, found, ⟨later, hlater, hfound⟩, hrest⟩
      · intro h
        obtain ⟨middle, found, ⟨later, hlater, hfound⟩, hrest⟩ := h
        exact ⟨later, hlater, middle, found, hfound, hrest⟩
  | write batch next ih =>
      rw [write_bind]
      constructor
      · intro h
        cases h
      · intro h
        obtain ⟨_, _, hfound, _⟩ := h
        cases hfound
  | call effect next ih =>
      rw [call_bind]
      constructor
      · intro h
        cases h
      · intro h
        obtain ⟨_, _, hfound, _⟩ := h
        cases hfound

end Program

/-- A moment of a machine and its running handlers. -/
structure System (σ μ ρ ε ι α : Type) extends Moment σ μ where
  threads : List (Program σ μ ρ ε ι α)

/-- What the handler is asking of the outside world. -/
def System.called {σ μ ρ ε ι α : Type} (system : System σ μ ρ ε ι α) (index : Nat) : Option ε :=
  match system.threads[index]? with
  | some (.call effect _) => some effect
  | _ => none

theorem System.called_eq_some {σ μ ρ ε ι α : Type} {system : System σ μ ρ ε ι α} {index : Nat} {effect : ε}
    (h : system.called index = some effect) : ∃ next, system.threads[index]? = some (.call effect next) := by
  unfold System.called at h
  split at h
  · rename_i next hthread
    cases h
    exact ⟨next, hthread⟩
  · cases h

/-- The batch that the handler is about to submit. -/
def System.submitted {σ μ ρ ε ι α : Type} (system : System σ μ ρ ε ι α) (index : Nat) : Option μ :=
  match system.threads[index]? with
  | some (.write batch _) => some batch
  | _ => none

theorem System.submitted_eq_some {σ μ ρ ε ι α : Type} {system : System σ μ ρ ε ι α} {index : Nat} {batch : μ}
    (h : system.submitted index = some batch) : ∃ next, system.threads[index]? = some (.write batch next) := by
  unfold System.submitted at h
  split at h
  · rename_i next hthread
    cases h
    exact ⟨next, hthread⟩
  · cases h

/-- How batches execute, which handlers may start, and how the store may change by itself. -/
structure Machine (σ μ ρ ε ι α : Type) where
  execute : μ → σ → Option (σ × ρ)
  starts : Program σ μ ρ ε ι α → Prop
  drift : σ → σ → Prop

namespace Machine

variable {σ μ ρ ε ι α : Type} (machine : Machine σ μ ρ ε ι α) (permit : Moment σ μ → μ → Prop)

/-- One step of a machine in which only permitted batches commit. -/
inductive Step : System σ μ ρ ε ι α → System σ μ ρ ε ι α → Prop where
  | start {system : System σ μ ρ ε ι α} {program : Program σ μ ρ ε ι α} (hstart : machine.starts program) :
      Step system { system with threads := system.threads ++ [program] }
  | drift {system : System σ μ ρ ε ι α} {after : σ} (hdrift : machine.drift system.state after) :
      Step system { system with toMoment := system.advance none after }
  | read {system : System σ μ ρ ε ι α} {index : Nat} {next : σ → Program σ μ ρ ε ι α}
      (hthread : system.threads[index]? = some (.read next)) :
      Step system { system with threads := system.threads.set index (next system.state) }
  | commit {system : System σ μ ρ ε ι α} {index : Nat} {batch : μ} {next : Option ρ → Program σ μ ρ ε ι α}
      {after : σ} {reply : ρ} {reported : Option ρ} (hthread : system.threads[index]? = some (.write batch next))
      (hpermit : permit system.toMoment batch)
      (hexecute : machine.execute batch system.state = some (after, reply))
      (hreported : reported = some reply ∨ reported = none) :
      Step system ⟨system.advance (some batch) after, system.threads.set index (next reported)⟩
  | abort {system : System σ μ ρ ε ι α} {index : Nat} {batch : μ} {next : Option ρ → Program σ μ ρ ε ι α}
      (hthread : system.threads[index]? = some (.write batch next)) :
      Step system { system with threads := system.threads.set index (next none) }
  | answer {system : System σ μ ρ ε ι α} {index : Nat} {effect : ε} {next : ι → Program σ μ ρ ε ι α} (value : ι)
      (hthread : system.threads[index]? = some (.call effect next)) :
      Step system { system with threads := system.threads.set index (next value) }

/-- The runs of a machine. -/
def Runs : System σ μ ρ ε ι α → System σ μ ρ ε ι α → Prop := Relation.ReflTransGen (machine.Step permit)

/-- A store on which no handler has started. -/
def initial (state : σ) : System σ μ ρ ε ι α := ⟨⟨state, []⟩, []⟩

variable {machine permit}

/-- The start of a run led to its end. -/
theorem before_of_runs {start system : System σ μ ρ ε ι α} (hrun : machine.Runs permit start system) :
    start.toMoment.Before system.toMoment := by
  induction hrun with
  | refl => exact .refl _
  | tail _ hstep ih =>
      cases hstep with
      | start _ => exact ih
      | drift _ => exact ih.advance _ _
      | read _ => exact ih
      | commit _ _ _ _ => exact ih.advance _ _
      | abort _ => exact ih
      | answer _ _ => exact ih

/-- A property that drift and every permitted batch preserve holds at each moment of a run. -/
theorem invariant {inv : Moment σ μ → Prop}
    (hdrift : ∀ moment after, inv moment → machine.drift moment.state after → inv (moment.advance none after))
    (hcommit : ∀ moment batch after reply, inv moment → permit moment batch →
      machine.execute batch moment.state = some (after, reply) → inv (moment.advance (some batch) after))
    {start system : System σ μ ρ ε ι α} (hstart : inv start.toMoment) (hrun : machine.Runs permit start system) :
    inv system.toMoment := by
  induction hrun with
  | refl => exact hstart
  | tail _ hstep ih =>
      cases hstep with
      | start _ => exact ih
      | drift hchange => exact hdrift _ _ ih hchange
      | read _ => exact ih
      | commit _ hpermit hexecute _ => exact hcommit _ _ _ _ ih hpermit hexecute
      | abort _ => exact ih
      | answer _ _ => exact ih

private theorem getElem?_set_of_some {threads : List (Program σ μ ρ ε ι α)} {index : Nat}
    {program : Program σ μ ρ ε ι α} (hthread : threads[index]? = some program) (next : Program σ μ ρ ε ι α) :
    (threads.set index next)[index]? = some next := by
  obtain ⟨hbound, _⟩ := List.getElem?_eq_some_iff.mp hthread
  exact List.getElem?_set_self hbound

/-- A handler that nobody interrupts runs to its end. -/
theorem runs_runAlone (hpermit : ∀ moment batch, permit moment batch) (reply : ε → ι) {program : Program σ μ ρ ε ι α}
    {start system : System σ μ ρ ε ι α} {index : Nat} (hthread : system.threads[index]? = some program)
    (hrun : machine.Runs permit start system) :
    ∃ later, machine.Runs permit start later ∧
      later.state = (program.runAlone machine.execute reply system.state).2 := by
  induction program generalizing system with
  | done value => exact ⟨system, hrun, rfl⟩
  | read next ih =>
      have hstep := hrun.tail (.read hthread)
      have hlater := ih system.state (getElem?_set_of_some hthread _) hstep
      exact hlater
  | write batch next ih =>
      rw [Program.runAlone]
      cases hexecute : machine.execute batch system.state with
      | none =>
          have hstep := hrun.tail (.abort hthread)
          have hlater := ih none (getElem?_set_of_some hthread _) hstep
          exact hlater
      | some result =>
          have hstep := hrun.tail (.commit hthread (hpermit _ _) hexecute (.inl rfl))
          have hlater := ih (some result.2) (getElem?_set_of_some hthread _) hstep
          exact hlater
  | call effect next ih =>
      have hstep := hrun.tail (.answer (reply effect) hthread)
      have hlater := ih (reply effect) (getElem?_set_of_some hthread _) hstep
      exact hlater

section Guarded

variable {guard : μ → Moment σ μ → Prop} {allow : ε → Moment σ μ → Prop}

/-- Every running handler keeps its promises. -/
def Faithful (guard : μ → Moment σ μ → Prop) (allow : ε → Moment σ μ → Prop) (system : System σ μ ρ ε ι α) : Prop :=
  ∀ program ∈ system.threads, program.Promises guard allow (fun _ _ => True) system.toMoment

private theorem mem_set_cases {threads : List (Program σ μ ρ ε ι α)} {index : Nat} {program other : Program σ μ ρ ε ι α}
    (hmem : other ∈ threads.set index program) : other = program ∨ other ∈ threads :=
  (List.mem_or_eq_of_mem_set hmem).symm

/-- One step keeps every promise. -/
theorem faithful_step
    (hstarts : ∀ program, machine.starts program → ∀ moment, program.Promises guard allow (fun _ _ => True) moment)
    {before after : System σ μ ρ ε ι α} (hfaithful : Faithful guard allow before)
    (hstep : machine.Step permit before after) : Faithful guard allow after := by
  intro program hmem
  cases hstep with
  | start hstart =>
      rcases List.mem_append.mp hmem with hold | hnew
      · exact hfaithful program hold
      · rw [List.mem_singleton.mp hnew]
        exact hstarts _ hstart _
  | drift hdrift =>
      exact (hfaithful program hmem).later (fun _ _ _ _ _ => trivial) ((Moment.Before.refl _).advance _ _)
  | read hthread =>
      rcases mem_set_cases hmem with hnew | hold
      · rw [hnew]
        exact hfaithful _ (List.mem_of_getElem? hthread) _ (.refl _)
      · exact hfaithful program hold
  | @commit _ batch _ after _ _ hthread hpermit hexecute hreported =>
      have hadvance := (Moment.Before.refl before.toMoment).advance (some batch) after
      rcases mem_set_cases hmem with hnew | hold
      · rw [hnew]
        exact (((hfaithful _ (List.mem_of_getElem? hthread)) _ (.refl _)).2 _).later (fun _ _ _ _ _ => trivial) hadvance
      · exact (hfaithful program hold).later (fun _ _ _ _ _ => trivial) hadvance
  | abort hthread =>
      rcases mem_set_cases hmem with hnew | hold
      · rw [hnew]
        exact (hfaithful _ (List.mem_of_getElem? hthread) _ (.refl _)).2 none
      · exact hfaithful program hold
  | answer value hthread =>
      rcases mem_set_cases hmem with hnew | hold
      · rw [hnew]
        exact (hfaithful _ (List.mem_of_getElem? hthread) _ (.refl _)).2 value
      · exact hfaithful program hold

theorem faithful_of_runs
    (hstarts : ∀ program, machine.starts program → ∀ moment, program.Promises guard allow (fun _ _ => True) moment)
    {start : σ} {system : System σ μ ρ ε ι α} (hrun : machine.Runs permit (initial start) system) :
    Faithful guard allow system := by
  induction hrun with
  | refl =>
      intro program hmem
      cases hmem
  | tail _ hstep ih => exact faithful_step hstarts ih hstep

/-- A handler that promises something when it is met promises it, under its index, to the end of the run. -/
theorem promises_of_runs {post : α → Moment σ μ → Prop}
    (hpost : ∀ value first second, first.Before second → post value first → post value second)
    {earlier system : System σ μ ρ ε ι α} (hrun : machine.Runs permit earlier system) {index : Nat}
    {program : Program σ μ ρ ε ι α} (hthread : earlier.threads[index]? = some program)
    (hprogram : program.Promises guard allow post earlier.toMoment) :
    ∃ last, system.threads[index]? = some last ∧ last.Promises guard allow post system.toMoment := by
  -- a step that moves another handler leaves this one alone; one that moves it takes it to its continuation
  have hset : ∀ {threads : List (Program σ μ ρ ε ι α)} {moved : Nat} {now next found : Program σ μ ρ ε ι α}
      {moment : Moment σ μ}, threads[index]? = some found → found.Promises guard allow post moment →
      threads[moved]? = some now → (now.Promises guard allow post moment → next.Promises guard allow post moment) →
      ∃ last, (threads.set moved next)[index]? = some last ∧ last.Promises guard allow post moment := by
    intro threads moved now next found moment hfound hpromises hnow hnext
    by_cases heq : moved = index
    · subst heq
      rw [hnow] at hfound
      cases hfound
      exact ⟨next, getElem?_set_of_some hnow next, hnext hpromises⟩
    · exact ⟨found, by rw [List.getElem?_set_ne heq, hfound], hpromises⟩
  induction hrun with
  | refl => exact ⟨program, hthread, hprogram⟩
  | @tail middle _ _ hstep ih =>
      obtain ⟨found, hfound, hpromises⟩ := ih
      cases hstep with
      | start _ =>
          refine ⟨found, ?_, hpromises⟩
          rw [List.getElem?_append_left (List.getElem?_eq_some_iff.mp hfound).1, hfound]
      | drift _ => exact ⟨found, hfound, hpromises.later hpost ((Moment.Before.refl _).advance _ _)⟩
      | read hmoved => exact hset hfound hpromises hmoved fun h => h _ (.refl _)
      | @commit _ batch _ after _ _ hmoved _ _ _ =>
          have hadvance := (Moment.Before.refl middle.toMoment).advance (some batch) after
          obtain ⟨last, hlast, hkept⟩ := hset hfound hpromises hmoved fun h => (h _ (.refl _)).2 _
          exact ⟨last, hlast, hkept.later hpost hadvance⟩
      | abort hmoved => exact hset hfound hpromises hmoved fun h => (h _ (.refl _)).2 none
      | answer value hmoved => exact hset hfound hpromises hmoved fun h => (h _ (.refl _)).2 value

/-- A handler calls the outside world only where that is allowed. -/
theorem allow_of_called {system : System σ μ ρ ε ι α} (hfaithful : Faithful guard allow system) {index : Nat} {effect : ε}
    {next : ι → Program σ μ ρ ε ι α} (hthread : system.threads[index]? = some (.call effect next)) :
    allow effect system.toMoment :=
  (hfaithful _ (List.mem_of_getElem? hthread) _ (.refl _)).1

/-- A property that drift and every permitted batch with its guard preserve holds at each moment of a run. -/
theorem guarded_invariant
    (hstarts : ∀ program, machine.starts program → ∀ moment, program.Promises guard allow (fun _ _ => True) moment)
    {inv : Moment σ μ → Prop}
    (hdrift : ∀ moment after, inv moment → machine.drift moment.state after → inv (moment.advance none after))
    (hcommit : ∀ moment batch after reply, inv moment → guard batch moment → permit moment batch →
      machine.execute batch moment.state = some (after, reply) → inv (moment.advance (some batch) after))
    {start : σ} {system : System σ μ ρ ε ι α} (hstart : inv ⟨start, []⟩)
    (hrun : machine.Runs permit (initial start) system) : inv system.toMoment := by
  induction hrun with
  | refl => exact hstart
  | tail hrun hstep ih =>
      have hfaithful := faithful_of_runs hstarts hrun
      cases hstep with
      | start _ => exact ih
      | drift hchange => exact hdrift _ _ ih hchange
      | read _ => exact ih
      | commit hthread hpermit hexecute _ =>
          have hguard := (hfaithful _ (List.mem_of_getElem? hthread) _ (.refl _)).1
          exact hcommit _ _ _ _ ih hguard hpermit hexecute
      | abort _ => exact ih
      | answer _ _ => exact ih

/-- Every recorded step was taken at a moment of the run. -/
theorem before_of_mem_trace {start : σ} {system : System σ μ ρ ε ι α} (hrun : machine.Runs permit (initial start) system)
    {cause : Option μ} {state : σ} (hmem : (cause, state) ∈ system.trace) :
    ∃ (past : Moment σ μ) (after : σ), past.state = state ∧ (past.advance cause after).Before system.toMoment := by
  induction hrun with
  | refl => cases hmem
  | @tail before after _ hstep ih =>
      have hadvance : ∀ (found : Option μ) (next : σ), (cause, state) ∈ (before.advance found next).trace →
          ∃ (past : Moment σ μ) (later : σ), past.state = state ∧
            (past.advance cause later).Before (before.advance found next) := by
        intro found next hrecorded
        rcases List.mem_append.mp hrecorded with hold | hnew
        · obtain ⟨past, later, hstate, hbefore⟩ := ih hold
          exact ⟨past, later, hstate, hbefore.advance found next⟩
        · rw [List.mem_singleton, Prod.mk.injEq] at hnew
          obtain ⟨rfl, rfl⟩ := hnew
          exact ⟨before.toMoment, next, rfl, .refl _⟩
      cases hstep with
      | start _ => exact ih hmem
      | drift _ => exact hadvance _ _ hmem
      | read _ => exact ih hmem
      | commit _ _ _ _ => exact hadvance _ _ hmem
      | abort _ => exact ih hmem
      | answer _ _ => exact ih hmem

/-- Every moment on the way of a run is reached by a run that goes on to its end. -/
theorem runs_of_before {start : σ} {system : System σ μ ρ ε ι α} (hrun : machine.Runs permit (initial start) system)
    {past : Moment σ μ} (hpast : past.Before system.toMoment) :
    ∃ earlier, machine.Runs permit (initial start) earlier ∧ machine.Runs permit earlier system ∧
      earlier.toMoment = past := by
  induction hrun with
  | refl => exact ⟨initial start, .refl, .refl, (Moment.before_start_iff.mp hpast).symm⟩
  | @tail before after hrun hstep ih =>
      have hrest : past.Before before.toMoment → ∃ earlier, machine.Runs permit (initial start) earlier ∧
          machine.Runs permit earlier after ∧ earlier.toMoment = past := by
        intro hbefore
        obtain ⟨earlier, hfirst, hsecond, heq⟩ := ih hbefore
        exact ⟨earlier, hfirst, hsecond.tail hstep, heq⟩
      have hrun' := hrun.tail hstep
      cases hstep with
      | start _ => exact hrest hpast
      | drift _ =>
          rcases Moment.before_advance_iff.mp hpast with heq | hbefore
          · exact ⟨_, hrun', .refl, heq.symm⟩
          · exact hrest hbefore
      | read _ => exact hrest hpast
      | commit _ _ _ _ =>
          rcases Moment.before_advance_iff.mp hpast with heq | hbefore
          · exact ⟨_, hrun', .refl, heq.symm⟩
          · exact hrest hbefore
      | abort _ => exact hrest hpast
      | answer _ _ => exact hrest hpast

/-- Every batch that committed in a run met its guard and was permitted. -/
theorem guard_of_committed
    (hstarts : ∀ program, machine.starts program → ∀ moment, program.Promises guard allow (fun _ _ => True) moment)
    {start : σ} {system : System σ μ ρ ε ι α} (hrun : machine.Runs permit (initial start) system) {past : Moment σ μ}
    {batch : μ} {after : σ} (hpast : (past.advance (some batch) after).Before system.toMoment) :
    guard batch past ∧ permit past batch ∧ ∃ reply, machine.execute batch past.state = some (after, reply) := by
  induction hrun with
  | refl =>
      have heq := congrArg Moment.trace (Moment.before_start_iff.mp hpast)
      simp [Moment.advance] at heq
  | tail hrun hstep ih =>
      have hfaithful := faithful_of_runs hstarts hrun
      cases hstep with
      | start _ => exact ih hpast
      | drift _ =>
          rcases Moment.before_advance_iff.mp hpast with heq | hbefore
          · cases (Moment.advance_inj heq).2.1
          · exact ih hbefore
      | read _ => exact ih hpast
      | commit hthread hpermit hexecute _ =>
          rcases Moment.before_advance_iff.mp hpast with heq | hbefore
          · obtain ⟨rfl, hcause, rfl⟩ := Moment.advance_inj heq
            cases hcause
            exact ⟨(hfaithful _ (List.mem_of_getElem? hthread) _ (.refl _)).1, hpermit, _, hexecute⟩
          · exact ih hbefore
      | abort _ => exact ih hpast
      | answer _ _ => exact ih hpast

end Guarded

/-! ### Deterministic schedules

A schedule names which handler moves next.  It produces one run of the machine, which is how a concrete
interleaving is exhibited. -/

section Schedule

variable {τ : Type}

/-- What happens next in a schedule; `τ` describes the requests that start handlers. -/
inductive Event (τ σ ι : Type) where
  | request (request : τ)
  | become (state : σ → σ)
  | advance (index : Nat)
  | reply (index : Nat) (value : ι)

variable (machine) (serve : τ → Program σ μ ρ ε ι α)

/-- Perform one event; an event that does not apply changes nothing. -/
def perform (system : System σ μ ρ ε ι α) : Event τ σ ι → System σ μ ρ ε ι α
  | .request request => { system with threads := system.threads ++ [serve request] }
  | .become change => { system with toMoment := system.advance none (change system.state) }
  | .advance index =>
      match system.threads[index]? with
      | some (.read next) => { system with threads := system.threads.set index (next system.state) }
      | some (.write batch next) =>
          match machine.execute batch system.state with
          | some (after, reply) =>
              ⟨system.advance (some batch) after, system.threads.set index (next (some reply))⟩
          | none => { system with threads := system.threads.set index (next none) }
      | _ => system
  | .reply index value =>
      match system.threads[index]? with
      | some (.call _ next) => { system with threads := system.threads.set index (next value) }
      | _ => system

/-- Perform a list of events. -/
def performAll (system : System σ μ ρ ε ι α) (events : List (Event τ σ ι)) : System σ μ ρ ε ι α :=
  events.foldl (machine.perform serve) system

/-- The batch that an event would commit, if any, passes the test. -/
def eventPermitted (permitted : Moment σ μ → μ → Bool) (system : System σ μ ρ ε ι α) : Event τ σ ι → Bool
  | .advance index =>
      match system.threads[index]? with
      | some (.write batch _) => permitted system.toMoment batch
      | _ => true
  | _ => true

/-- Every batch that a list of events commits passes the test. -/
def performsOnly (permitted : Moment σ μ → μ → Bool) : System σ μ ρ ε ι α → List (Event τ σ ι) → Bool
  | _, [] => true
  | system, event :: events =>
      eventPermitted permitted system event && performsOnly permitted (machine.perform serve system event) events

variable {machine serve}

/-- A schedule is a run, as long as its requests may start, its store changes are drift and its batches permitted. -/
theorem runs_performAll (hserve : ∀ request, machine.starts (serve request)) {permitted : Moment σ μ → μ → Bool}
    (hpermitted : ∀ moment batch, permitted moment batch = true → permit moment batch)
    {start system : System σ μ ρ ε ι α} (events : List (Event τ σ ι))
    (hdrift : ∀ change, Event.become change ∈ events → ∀ state, machine.drift state (change state))
    (honly : machine.performsOnly serve permitted system events = true)
    (hrun : machine.Runs permit start system) :
    machine.Runs permit start (machine.performAll serve system events) := by
  induction events generalizing system with
  | nil => exact hrun
  | cons event events ih =>
      rw [performsOnly, Bool.and_eq_true] at honly
      apply ih
      · intro change hmem
        exact hdrift change (List.mem_cons_of_mem _ hmem)
      · exact honly.2
      have htest := honly.1
      cases event with
      | request request => exact hrun.tail (.start (hserve request))
      | become change => exact hrun.tail (.drift (hdrift change List.mem_cons_self _))
      | advance index =>
          rw [perform]
          cases hthread : system.threads[index]? with
          | none => exact hrun
          | some program =>
              rw [eventPermitted, hthread] at htest
              cases program with
              | done value => exact hrun
              | read next => exact hrun.tail (.read hthread)
              | write batch next =>
                  dsimp only
                  cases hexecute : machine.execute batch system.state with
                  | none => exact hrun.tail (.abort hthread)
                  | some result =>
                      exact hrun.tail (.commit hthread (hpermitted _ _ htest) hexecute (.inl rfl))
              | call effect next => exact hrun
      | reply index value =>
          rw [perform]
          cases hthread : system.threads[index]? with
          | none => exact hrun
          | some program =>
              cases program with
              | done _ => exact hrun
              | read _ => exact hrun
              | write _ _ => exact hrun
              | call effect next => exact hrun.tail (.answer value hthread)

/-- What a schedule starts from led to where it ends. -/
theorem before_performAll (system : System σ μ ρ ε ι α) (events : List (Event τ σ ι)) :
    system.toMoment.Before (machine.performAll serve system events).toMoment := by
  induction events generalizing system with
  | nil => exact .refl _
  | cons event events ih =>
      refine Moment.Before.trans ?_ (ih (machine.perform serve system event))
      unfold perform
      split
      · exact .refl _
      · exact (Moment.Before.refl _).advance _ _
      · split
        · exact .refl _
        · split
          · exact (Moment.Before.refl _).advance _ _
          · exact .refl _
        · exact .refl _
      · split
        · exact .refl _
        · exact .refl _

/-- Where every batch passes, the test is vacuous. -/
theorem performsOnly_of_forall {permitted : Moment σ μ → μ → Bool}
    (hall : ∀ moment batch, permitted moment batch = true) (system : System σ μ ρ ε ι α)
    (events : List (Event τ σ ι)) : machine.performsOnly serve permitted system events = true := by
  induction events generalizing system with
  | nil => rfl
  | cons event events ih =>
      rw [performsOnly, ih, Bool.and_true]
      unfold eventPermitted
      split
      · split
        · exact hall _ _
        · rfl
      · rfl

end Schedule

end Machine
