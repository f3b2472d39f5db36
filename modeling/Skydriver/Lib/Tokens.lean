import Skydriver.Lib.Interleaving

/-!
# Batches that cost a token

Some batches may be submitted only by a handler that has been granted the right to, and a right is granted by the reply
of an earlier batch and used up by the next attempt.  A program affords what it does with a budget if no batch costs
more than the budget holds.  Where every grant is covered by what the store can still supply, no more tokens are spent
over a whole run than the store has supplied, however handlers interleave and whichever replies are lost.
-/

namespace Moment

variable {σ μ : Type}

/-- What the committed batches have cost. -/
def spent (cost : μ → Nat) (moment : Moment σ μ) : Nat :=
  (moment.trace.map fun step => (step.1.map cost).getD 0).sum

theorem spent_advance (cost : μ → Nat) (moment : Moment σ μ) (cause : Option μ) (after : σ) :
    (moment.advance cause after).spent cost = moment.spent cost + (cause.map cost).getD 0 := by
  simp [spent, advance]

end Moment

namespace Program

variable {σ μ ρ ε ι α β : Type} (cost : μ → Nat) (grant : μ → ρ → Nat)

/-- With the tokens of its budget and those it is granted on the way, the program can pay for every batch it submits;
a batch is paid for when it is submitted, whether or not it commits. -/
def Affords : Program σ μ ρ ε ι α → Nat → Prop
  | .done _, _ => True
  | .read next, budget => ∀ state, (next state).Affords budget
  | .write batch next, budget => cost batch ≤ budget ∧ (next none).Affords (budget - cost batch) ∧
      ∀ reply, (next (some reply)).Affords (budget - cost batch + grant batch reply)
  | .call _ next, budget => ∀ answer, (next answer).Affords budget

variable {cost grant}

theorem Affords.mono {program : Program σ μ ρ ε ι α} {less more : Nat} (h : program.Affords cost grant less)
    (hle : less ≤ more) : program.Affords cost grant more := by
  induction program generalizing less more with
  | done value => trivial
  | read next ih => exact fun state => ih state (h state) hle
  | write batch next ih =>
      obtain ⟨hcost, hnone, hsome⟩ := h
      refine ⟨hcost.trans hle, ih none hnone (by omega), ?_⟩
      intro reply
      exact ih (some reply) (hsome reply) (by omega)
  | call effect next ih => exact fun answer => ih answer (h answer) hle

end Program

namespace Machine

variable {σ μ ρ ε ι α : Type} {machine : Machine σ μ ρ ε ι α} {permit : Moment σ μ → μ → Prop} {cost : μ → Nat}
  {grant : μ → ρ → Nat} {supply : σ → Nat}

/-- Every running handler has a budget it can afford the rest of its run with, and what has been spent and what is
still budgeted has been supplied. -/
def Funded (cost : μ → Nat) (grant : μ → ρ → Nat) (supply : σ → Nat) (system : System σ μ ρ ε ι α) : Prop :=
  ∃ budget : Nat → Nat,
    (∀ (index : Nat) (program : Program σ μ ρ ε ι α), system.threads[index]? = some program →
      program.Affords cost grant (budget index)) ∧
    system.toMoment.spent cost + ∑ index ∈ Finset.range system.threads.length, budget index ≤ supply system.state

/-- A handler moves to `next`, with `after` in its place of the budgets. -/
private theorem affords_set {threads : List (Program σ μ ρ ε ι α)} {budget : Nat → Nat} {moved after : Nat}
    {next : Program σ μ ρ ε ι α}
    (hbudget : ∀ (index : Nat) (program : Program σ μ ρ ε ι α), threads[index]? = some program →
      program.Affords cost grant (budget index))
    (hnext : next.Affords cost grant after) (index : Nat) (program : Program σ μ ρ ε ι α)
    (hthread : (threads.set moved next)[index]? = some program) :
    program.Affords cost grant (Function.update budget moved after index) := by
  by_cases heq : index = moved
  · subst heq
    rw [List.getElem?_set_self', Option.map_eq_map, Option.map_eq_some_iff] at hthread
    obtain ⟨_, _, rfl⟩ := hthread
    rw [Function.update_self]
    exact hnext
  · rw [List.getElem?_set_ne (Ne.symm heq)] at hthread
    rw [Function.update_of_ne heq]
    exact hbudget index program hthread

private theorem sum_update {length : Nat} (budget : Nat → Nat) {moved : Nat} (hmoved : moved < length) (after : Nat) :
    (∑ index ∈ Finset.range length, Function.update budget moved after index) + budget moved =
      ∑ index ∈ Finset.range length, budget index + after := by
  have hmem : moved ∈ Finset.range length := Finset.mem_range.mpr hmoved
  rw [Finset.sum_update_of_mem hmem, Finset.sdiff_singleton_eq_erase, ← Finset.add_sum_erase _ budget hmem]
  omega

/-- One step keeps the handlers funded, if drift takes nothing from the supply and a batch supplies what its reply
grants. -/
theorem funded_step (hstarts : ∀ program, machine.starts program → program.Affords cost grant 0)
    (hdrift : ∀ state after, machine.drift state after → supply state ≤ supply after)
    (hsupply : ∀ batch state after reply, machine.execute batch state = some (after, reply) →
      supply state + grant batch reply ≤ supply after)
    {before after : System σ μ ρ ε ι α} (hfunded : Funded cost grant supply before)
    (hstep : machine.Step permit before after) : Funded cost grant supply after := by
  obtain ⟨budget, hbudget, htotal⟩ := hfunded
  cases hstep with
  | start hstart =>
      refine ⟨Function.update budget before.threads.length 0, ?_, ?_⟩
      · intro index found hthread
        by_cases heq : index = before.threads.length
        · subst heq
          rw [List.getElem?_concat_length, Option.some.injEq] at hthread
          rw [Function.update_self, ← hthread]
          exact hstarts _ hstart
        · rw [Function.update_of_ne heq]
          rw [List.getElem?_append] at hthread
          split_ifs at hthread with hlt
          · exact hbudget index found hthread
          · rw [List.getElem?_singleton] at hthread
            split_ifs at hthread with hzero
            omega
      · rw [List.length_append, List.length_singleton, Finset.sum_range_succ, Function.update_self]
        have hsame : ∑ index ∈ Finset.range before.threads.length,
            Function.update budget before.threads.length 0 index =
              ∑ index ∈ Finset.range before.threads.length, budget index := by
          apply Finset.sum_congr rfl
          intro index hmem
          exact Function.update_of_ne (Finset.mem_range.mp hmem).ne _ _
        rw [hsame]
        exact htotal
  | drift hchange =>
      refine ⟨budget, hbudget, ?_⟩
      have hmore := hdrift _ _ hchange
      rw [Moment.spent_advance]
      exact htotal.trans hmore
  | @read index _ hthread =>
      refine ⟨Function.update budget index (budget index),
        affords_set hbudget (hbudget index _ hthread before.state), ?_⟩
      rw [Function.update_eq_self, List.length_set]
      exact htotal
  | @commit index batch _ state reply _ hthread _ hexecute hreported =>
      obtain ⟨hcost, hnone, hsome⟩ := hbudget index _ hthread
      obtain ⟨hindex, _⟩ := List.getElem?_eq_some_iff.mp hthread
      have hmore := hsupply _ _ _ _ hexecute
      have hsum := sum_update budget hindex (budget index - cost batch + grant batch reply)
      refine ⟨Function.update budget index (budget index - cost batch + grant batch reply), ?_, ?_⟩
      · apply affords_set hbudget
        rcases hreported with rfl | rfl
        · exact hsome reply
        · exact hnone.mono (by omega)
      · rw [Moment.spent_advance, Option.map_some, Option.getD_some, List.length_set]
        change _ ≤ supply state
        omega
  | @abort index batch _ hthread =>
      obtain ⟨hcost, hnone, _⟩ := hbudget index _ hthread
      obtain ⟨hindex, _⟩ := List.getElem?_eq_some_iff.mp hthread
      have hsum := sum_update budget hindex (budget index - cost batch)
      refine ⟨Function.update budget index (budget index - cost batch), affords_set hbudget hnone, ?_⟩
      rw [List.length_set]
      change before.toMoment.spent cost + _ ≤ supply before.state
      omega
  | @answer index _ _ value hthread =>
      refine ⟨Function.update budget index (budget index),
        affords_set hbudget (hbudget index _ hthread value), ?_⟩
      rw [Function.update_eq_self, List.length_set]
      exact htotal

/-- Over a whole run no more is spent than the store has supplied. -/
theorem spent_le_supply (hstarts : ∀ program, machine.starts program → program.Affords cost grant 0)
    (hdrift : ∀ state after, machine.drift state after → supply state ≤ supply after)
    (hsupply : ∀ batch state after reply, machine.execute batch state = some (after, reply) →
      supply state + grant batch reply ≤ supply after)
    {start : σ} {system : System σ μ ρ ε ι α} (hrun : machine.Runs permit (initial start) system) :
    system.toMoment.spent cost ≤ supply system.state := by
  have hfunded : Funded cost grant supply system := by
    induction hrun with
    | refl => exact ⟨fun _ => 0, fun _ _ hthread => by simp [initial] at hthread, by simp [initial, Moment.spent]⟩
    | tail _ hstep ih => exact funded_step hstarts hdrift hsupply ih hstep
  obtain ⟨_, _, htotal⟩ := hfunded
  exact (Nat.le_add_right _ _).trans htotal

end Machine
