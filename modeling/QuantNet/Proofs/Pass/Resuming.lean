import QuantNet.Proofs.Pass.Rounds

/-!
# Resumption

A limit does nothing but cut a run short.  A run that was cut short can be resumed: two runs with a
limit each come to what one run comes to that may take as many scans as both.
-/

namespace QuantNet

variable {α : Type}

/-- The report of a run that was resumed by another. -/
def Report.resumed (first later : Report) : Report :=
  ⟨first.scans + later.scans, first.patches + later.patches, later.converged⟩

namespace Optimizer

variable {passes : List (Pass α)} {graph middle final : Graph α} {rounds others : List (Round α)}
  {limit : Nat} {outcome : Except (Failure PassError) Report}

/-- Scans with patches can be put in front of a run, if its limit is raised by their number. -/
theorem Concludes.resumed (scans : Rounds passes graph rounds middle) (busy : Busy rounds)
    (concludes : Concludes passes (some limit) middle others final outcome) :
    Concludes passes (some (rounds.length + limit)) graph (rounds ++ others) final
      (outcome.map (Report.resumed ⟨rounds.length, patchCount rounds, false⟩)) := by
  have length : (rounds ++ others).length = rounds.length + others.length := List.length_append
  have count : patchCount (rounds ++ others) = patchCount rounds + patchCount others :=
    patchCount_append
  have room : (∀ most ∈ some limit, others.length < most) →
      ∀ most ∈ some (rounds.length + limit), (rounds ++ others).length < most := by
    rintro below most ⟨⟩
    have := below limit rfl
    omega
  cases concludes with
  | exhausted further later reached =>
      have all := scans.append further
      have reaches : some (rounds.length + limit) = some (rounds ++ others).length := by
        rw [length, Option.some.inj reached]
      have result := Concludes.exhausted all (busy_append_iff.mpr ⟨busy, later⟩) reaches
      rwa [length, count] at result
  | settled further later below quiet =>
      have all := scans.append further
      have result := Concludes.settled all (busy_append_iff.mpr ⟨busy, later⟩) (room below) quiet
      rwa [length, count, Nat.add_assoc] at result
  | failed further later below walk =>
      exact .failed (scans.append further) (busy_append_iff.mpr ⟨busy, later⟩) (room below) walk

/-- A run that is cut short leaves off behind scans that all have patches. -/
theorem Concludes.cut {report : Report}
    (concludes : Concludes passes (some limit) graph rounds final (.ok report))
    (unconverged : report.converged = false) :
    Rounds passes graph rounds final ∧ Busy rounds ∧ limit = rounds.length ∧
      report = ⟨rounds.length, patchCount rounds, false⟩ := by
  cases concludes with
  | exhausted scans busy reached => exact ⟨scans, busy, Option.some.inj reached, rfl⟩
  | settled => cases unconverged

/-- Behind scans with patches, the whole run comes to what the rest of it comes to. -/
theorem Rounds.resumed (scans : Rounds passes graph rounds middle) (busy : Busy rounds)
    (more : Nat) :
    ∃ whole rest,
      (⟨some (rounds.length + more), passes⟩ : Optimizer α).run graph = some whole ∧
        (⟨some more, passes⟩ : Optimizer α).run middle = some rest ∧
          whole.graph = rest.graph ∧
            whole.outcome =
              rest.outcome.map (Report.resumed ⟨rounds.length, patchCount rounds, false⟩) := by
  obtain ⟨others, final, outcome, concludes⟩ := exists_concludes passes more middle
  obtain ⟨_, restRun⟩ := concludes.run_eq
  obtain ⟨_, wholeRun⟩ := (concludes.resumed scans busy).run_eq
  exact ⟨_, _, wholeRun, restRun, rfl, rfl⟩

/-- A run that is not cut short does not notice a higher limit. -/
theorem Concludes.raised (concludes : Concludes passes (some limit) graph rounds final outcome)
    (uncut : some limit ≠ some rounds.length) (more : Nat) :
    ∃ log, (⟨some (limit + more), passes⟩ : Optimizer α).run graph =
      some ⟨final, log, outcome⟩ := by
  have room : ∀ most ∈ some (limit + more), rounds.length < most := by
    rintro most ⟨⟩
    have few := concludes.length_le limit rfl
    have different : limit ≠ rounds.length := fun same => uncut (congrArg some same)
    omega
  exact (concludes.relimit uncut room).run_eq

/-- A limit only cuts a run short, at a point from which it can be resumed. -/
theorem run_resumable (passes : List (Pass α)) (graph : Graph α) (first more : Nat) :
    ∃ cut whole,
      (⟨some first, passes⟩ : Optimizer α).run graph = some cut ∧
        (⟨some (first + more), passes⟩ : Optimizer α).run graph = some whole ∧
          (∀ report, cut.outcome = .ok report → report.converged = false →
            ∃ rest, (⟨some more, passes⟩ : Optimizer α).run cut.graph = some rest ∧
              whole.graph = rest.graph ∧ whole.outcome = rest.outcome.map report.resumed) ∧
          ((∀ report, cut.outcome = .ok report → report.converged = true) →
            whole.graph = cut.graph ∧ whole.outcome = cut.outcome) := by
  obtain ⟨rounds, middle, outcome, concludes⟩ := exists_concludes passes first graph
  obtain ⟨_, cutRun⟩ := concludes.run_eq
  by_cases reached : some first = some rounds.length
  · obtain ⟨report, rfl, unconverged⟩ := concludes.cut_iff.mpr reached
    obtain ⟨scans, busy, rfl, rfl⟩ := concludes.cut unconverged
    obtain ⟨whole, rest, wholeRun, restRun, sameGraph, sameOutcome⟩ := scans.resumed busy more
    refine ⟨_, whole, cutRun, wholeRun, ?_, fun converged => ?_⟩
    · rintro report fine -
      obtain rfl := Except.ok.inj fine
      exact ⟨rest, restRun, sameGraph, sameOutcome⟩
    · exact absurd (converged _ rfl) Bool.false_ne_true
  · obtain ⟨_, wholeRun⟩ := concludes.raised reached more
    refine ⟨_, _, cutRun, wholeRun, fun report fine unconverged => ?_, fun _ => ⟨rfl, rfl⟩⟩
    exact absurd (concludes.cut_iff.mp ⟨report, fine, unconverged⟩) reached

end Optimizer

end QuantNet
