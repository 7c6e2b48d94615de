import AcojWorker.Judge.BatchScoring
import Mathlib.Data.Fintype.Card
import Mathlib.Data.Set.Finite.Basic
import Mathlib.Logic.Relation

/-!
# How far batch dependencies reach

Dependencies are looked up once, in the raw results, so a failed batch withholds the points
of the batches that name it and of no others: a batch further along the chain meets a batch
that was merely skipped, and skipping does not count as failing. Declaring the transitive
dependencies in every test case is what makes the reported results closed.
-/

namespace AcojWorker

open Python Grouping

variable {β π : Type} [DecidableEq β]

namespace RawCases

/-- A test case of batch `b` names the batch `d` of the list. -/
def DependsOn (xs : RawCases β π) (b d : β) : Prop :=
  ∃ x ∈ xs, x.1.batchNo = some b ∧ d ∈ x.1.deps ∧ xs.Occurs d

instance (xs : RawCases β π) (b d : β) : Decidable (xs.DependsOn b d) :=
  inferInstanceAs (Decidable (∃ x ∈ xs, _))

/-- Some case of the batch is reported as accepted with points. -/
def EarnsPoints (out : RawCases β ℚ) (b : β) : Prop :=
  ∃ y ∈ out, y.1.batchNo = some b ∧ y.2.result = .AC ∧ y.2.points ≠ 0

instance (out : RawCases β ℚ) (b : β) : Decidable (EarnsPoints out b) :=
  inferInstanceAs (Decidable (∃ y ∈ out, _))

theorem earns_dependency {xs : RawCases β π} {b d : β} (earns : xs.Earns b)
    (dep : xs.DependsOn b d) : xs.AllAC d := by
  obtain ⟨x, hx, hb, hd, occurs⟩ := dep
  by_contra failed
  exact earns.2 x hx hb ⟨d, hd, occurs, failed⟩

/-- The test cases with what is reported for them. -/
def report [Zero π] (xs : RawCases β π) : RawCases β π :=
  xs.layout.map fun x => (x.1, xs.reported x)

theorem mem_report [Zero π] {xs : RawCases β π} {y : BatchInfo β × CaseResult π} :
    y ∈ xs.report ↔ ∃ x ∈ xs, (x.1, xs.reported x) = y := by
  rw [report, List.mem_map]
  simp only [xs.layout_perm.mem_iff]

theorem reported_of_not_earns [Zero π] {xs : RawCases β π} {b : β} (lost : ¬ xs.Earns b)
    {x : BatchInfo β × CaseResult π} (hb : x.1.batchNo = some b) :
    (xs.reported x).points = 0 := by
  by_cases fails : xs.DependencyFails x.1 <;> simp [reported, hb, fails, lost]

theorem earnsPoints_report {xs : RawCases β ℚ} {b : β} (h : xs.report.EarnsPoints b) :
    xs.Earns b := by
  obtain ⟨y, hy, hb, _, points⟩ := h
  obtain ⟨x, _, rfl⟩ := mem_report.mp hy
  by_contra lost
  exact points (reported_of_not_earns lost hb)

/-- A passing batch is reported accepted or skipped. -/
theorem report_of_allAC [Zero π] {xs : RawCases β π} {d : β} (passed : xs.AllAC d) :
    ∀ y ∈ xs.report, y.1.batchNo = some d → y.2.result = .AC ∨ y.2.result = .SKIPPED := by
  intro y hy hd
  obtain ⟨x, hx, rfl⟩ := mem_report.mp hy
  have hr := passed x hx hd
  by_cases fails : xs.DependencyFails x.1
  · exact .inr (by simp [reported, show x.1.batchNo = some d from hd, fails])
  · refine .inl ?_
    by_cases earns : xs.Earns d <;>
      simp [reported, show x.1.batchNo = some d from hd, fails, earns, hr]

/-- A passing batch that depends on passing batches only is reported accepted. -/
theorem report_allAC [Zero π] {xs : RawCases β π} {d : β} (passed : xs.AllAC d)
    (free : ∀ e, xs.DependsOn d e → xs.AllAC e) : xs.report.AllAC d := by
  intro y hy hd
  obtain ⟨x, hx, rfl⟩ := mem_report.mp hy
  have earns : xs.Earns d := by
    refine ⟨passed, ?_⟩
    rintro z hz hzd ⟨e, he, occurs, failed⟩
    exact failed (free e ⟨z, hz, hzd, he, occurs⟩)
  simpa [reported, show x.1.batchNo = some d from hd, earns.2 x hx hd, earns]
    using passed x hx hd

omit [DecidableEq β] in
theorem direct_of_closed {xs : RawCases β π}
    (closed : ∀ b d e, xs.DependsOn b d → xs.DependsOn d e → xs.DependsOn b e) {b d : β}
    (chain : Relation.TransGen xs.DependsOn b d) : xs.DependsOn b d := by
  induction chain with
  | single h => exact h
  | tail _ h ih => exact closed _ _ _ ih h

end RawCases

/-- The output of batch scoring over exact points, each returned case with its test case. -/
def scored (raw : List (CaseResult ℚ)) (tcs : List (BatchInfo β)) : RawCases β ℚ :=
  match aggregateBatches .ok raw tcs with
  | .ok (cases, _) => ((RawCases.layout (tcs.zip raw)).map Prod.fst).zip cases
  | .error _ => []

theorem scored_eq (raw : List (CaseResult ℚ)) (tcs : List (BatchInfo β)) :
    scored raw tcs = RawCases.report (tcs.zip raw) := by
  rw [scored, aggregateBatches_eq id rfl (fun _ _ => rfl) rfl, RawCases.report]
  exact List.zip_map' ..

/-- A batch earns points only if the batches it names passed. Such a batch is reported
accepted, or skipped when it names a failed batch itself; if every dependency of a
dependency is declared as well, all of them are reported accepted. -/
theorem scored_dependencies (raw : List (CaseResult ℚ)) (tcs : List (BatchInfo β)) :
    let xs : RawCases β ℚ := tcs.zip raw
    let out := scored raw tcs
    (∀ b d, out.EarnsPoints b → xs.DependsOn b d →
      xs.AllAC d ∧
      (∀ y ∈ out, y.1.batchNo = some d → y.2.result = .AC ∨ y.2.result = .SKIPPED) ∧
      (¬ out.AllAC d → ∃ e, xs.DependsOn d e ∧ ¬ xs.AllAC e)) ∧
    ((∀ b d e, xs.DependsOn b d → xs.DependsOn d e → xs.DependsOn b e) →
      ∀ b d, out.EarnsPoints b → Relation.TransGen xs.DependsOn b d → out.AllAC d) := by
  intro xs out
  have hout : out = xs.report := scored_eq raw tcs
  rw [hout]
  refine ⟨?_, ?_⟩
  · intro b d earns dep
    have passed := RawCases.earns_dependency (RawCases.earnsPoints_report earns) dep
    refine ⟨passed, RawCases.report_of_allAC passed, ?_⟩
    intro skipped
    by_contra free
    push Not at free
    exact skipped (RawCases.report_allAC passed free)
  · intro closed b d earns chain
    have passing := RawCases.earnsPoints_report earns
    have dep := RawCases.direct_of_closed closed chain
    exact RawCases.report_allAC (RawCases.earns_dependency passing dep)
      (fun e he => RawCases.earns_dependency passing (closed b d e dep he))

/-- The third batch earns its points although the second was skipped and the first failed. -/
theorem scored_chain_not_closed :
    ¬ ∀ b d, (scored chainResults chainTests).EarnsPoints b →
      Relation.TransGen (RawCases.DependsOn (chainTests.zip chainResults)) b d →
      (scored chainResults chainTests).AllAC d := by
  intro closed
  have direct := closed 3 2 (by decide +kernel) (.single (by decide +kernel))
  exact absurd direct (by decide +kernel)

end AcojWorker
