import AcojWorker.Judge.Tasks

/-!
# Inputs built from a validated request

The judging modes read the request as it was sent. Texts are never coerced, so what is built
from texts alone is built from the validated request just as well; a limit is the same when
the declared limits look the same.
-/

namespace AcojWorker

open Python Effect

variable {lax : Lax}

section Fields

variable {model : List Field} {fields fields' : List (String × Value)}

end Fields

/-! ### Languages -/

section Language

variable {language language' : List (String × Value)}

end Language

/-! ### Test data -/

section Case

variable {tc tc' : List (String × Value)}

end Case

/-! ### Limits -/

/-- `limit or …`: a falsy limit is not looked at. -/
def declaredLimit (limit : Value) : Value := limit.orElse .none

/-- A limit looks the same in a test case, or in the problem if the case declares none. -/
structure LimitAlike (lax : Lax) (name : String) (problem tc : List (String × Value)) :
    Prop where
  own : (optionalField name (Check.int lax) (Check.int_stable lax)).Alike declaredLimit tc
  fallback : ((tc.lookup name).getD .none).truthy = false → (intField lax name).Alike id problem

section Limits

variable {problem problem' tc tc' : List (String × Value)} {name : String}

/-- The limits that every mode reads from a case and from the problem. -/
structure LimitsAlike (lax : Lax) (problem tc : List (String × Value)) : Prop where
  time : LimitAlike lax "time_limit_ms" problem tc
  memory : LimitAlike lax "memory_limit_kb" problem tc

end Limits

end AcojWorker
