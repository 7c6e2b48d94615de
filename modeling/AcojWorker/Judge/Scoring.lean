import AcojWorker.Data.Grouping
import AcojWorker.Judge.ResultMapper

/-!
# Batch scoring

Test cases with one `batchNo` earn their points together or not at all, and a batch may
depend on other batches. Scoring runs in four phases over the same two lists: the status
of every batch, the cases whose dependencies failed are marked as skipped, the status
again, and finally the points, batch by batch in order of first appearance.

Batch numbers are only compared and points are only added up, so both types are left
open: the request gives raw values, a specification is stated over numbers.
-/

namespace AcojWorker

open Python Grouping

/-- What scoring reads of a test case. -/
structure BatchInfo (β : Type) where
  batchNo : Option β
  batchDepends : List β
  batchDependencies : List β

/-- `tc.get("batch_depends") or tc.get("batch_dependencies") or []`. -/
def BatchInfo.deps {β : Type} (tc : BatchInfo β) : List β :=
  if tc.batchDepends.isEmpty then tc.batchDependencies else tc.batchDepends

/-- The dictionary `batch_ac`. -/
abbrev BatchStatus (β : Type) : Type := β → Option Bool

variable {β π : Type} [DecidableEq β]

def recordCase (batchAc : BatchStatus β) (tc : BatchInfo β) (cr : CaseResult π) :
    BatchStatus β :=
  match tc.batchNo with
  | none => batchAc
  | some bn =>
      Function.update batchAc bn (some ((batchAc bn).getD true && cr.result = .AC))

def computeBatchAcStatus (raw : List (CaseResult π)) (tcs : List (BatchInfo β)) :
    BatchStatus β :=
  (tcs.zip raw).foldl (fun batchAc x => recordCase batchAc x.1 x.2) (fun _ => none)

section Marking

variable [Zero π]

/-- A case that is not run because a batch it depends on failed. -/
def CaseResult.skip (cr : CaseResult π) : CaseResult π :=
  { cr with result := .SKIPPED, points := 0 }

def markDependencies (batchAc : BatchStatus β) (tc : BatchInfo β) (cr : CaseResult π) :
    CaseResult π :=
  match tc.batchNo with
  | none => cr
  | some _ =>
      tc.deps.foldl (fun cr dep => if batchAc dep = some false then cr.skip else cr) cr

def applyBatchDependencies (batchAc : BatchStatus β) :
    List (CaseResult π) → List (BatchInfo β) → List (CaseResult π)
  | cr :: raw, tc :: tcs =>
      markDependencies batchAc tc cr :: applyBatchDependencies batchAc raw tcs
  | raw, _ => raw

end Marking

section Points

variable (num : π → Except Exc ℚ)

/-- A case outside every batch: it earns its points on its own. -/
def scoreCase (acc : List (CaseResult π) × ℚ) (c : CaseResult π) :
    Except Exc (List (CaseResult π) × ℚ) :=
  if c.result = .AC then do
    let points ← num c.points
    return (acc.1 ++ [c], acc.2 + points)
  else
    return (acc.1 ++ [c], acc.2)

/-- `sum(c["points"] for c in cases)`. -/
def sumPoints (cases : List (CaseResult π)) : Except Exc ℚ :=
  cases.foldlM (fun sum c => (sum + ·) <$> num c.points) 0

variable [Zero π]

/-- Phase 4 for one batch: extend the returned cases and the total. -/
def scoreBatch (batchAc : BatchStatus β) (bn : Option β) (batchCases : List (CaseResult π))
    (acc : List (CaseResult π) × ℚ) : Except Exc (List (CaseResult π) × ℚ) :=
  match bn with
  | none => batchCases.foldlM (scoreCase num) acc
  | some b =>
      if (batchAc b).getD true then do
        let batchPoints ← sumPoints num batchCases
        return (acc.1 ++ batchCases, acc.2 + batchPoints)
      else
        return (acc.1 ++ batchCases.map (fun c => { c with points := 0 }), acc.2)

def aggregateBatches (raw : List (CaseResult π)) (tcs : List (BatchInfo β)) :
    Except Exc (List (CaseResult π) × ℚ) :=
  let batchAc := computeBatchAcStatus raw tcs
  let raw := applyBatchDependencies batchAc raw tcs
  let batchAc := computeBatchAcStatus raw tcs
  let batches := group ((tcs.zip raw).map fun x => (x.1.batchNo, x.2))
  batches.order.foldlM (fun acc bn => scoreBatch num batchAc bn (batches.members bn) acc) ([], 0)

end Points

end AcojWorker
