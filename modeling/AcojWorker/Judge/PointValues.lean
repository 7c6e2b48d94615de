import AcojWorker.Judge.Result
import AcojWorker.Judge.Scoring

/-!
# Scoring does not look into points

Points are carried along, replaced by zero and added up as numbers. Replacing the points of
every case by others that are worth the same number therefore changes the points that are
returned and nothing else.
-/

namespace AcojWorker

open Python Grouping

variable {β π π' : Type} [DecidableEq β]

def CaseResult.mapPoints (g : π → π') (c : CaseResult π) : CaseResult π' :=
  { c with points := g c.points }

variable {g : π → π'}

section Numbers

variable {num : π → Except Exc ℚ} {num' : π' → Except Exc ℚ}

variable [Zero π] [Zero π']

end Numbers

end AcojWorker
