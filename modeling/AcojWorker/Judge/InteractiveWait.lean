import AcojWorker.Judge.Interactive

/-!
# When the judge has waited long enough

An interactive case is decided by the results of its two runs as long as both have
completed when the judge looks for the second time. The second look comes a second after
the FIFOs were released, so a user's program that is still computing when the interactor
has said its last word is given up, however far it is from its own limit.
-/

namespace AcojWorker

namespace InteractiveMode

open Python Effect

/-- Both runs have completed when the judge looks for the second time. -/
def Collected (timeout : ℚ) (race : Race) : Prop :=
  race.user.doneBy (secondLook timeout race) = true ∧
    race.interactor.doneBy (secondLook timeout race) = true

instance (timeout : ℚ) (race : Race) : Decidable (Collected timeout race) :=
  inferInstanceAs (Decidable (_ ∧ _))

variable {σ : Type} {h : World σ} {race : Race}

section TwoSeconds

/-- A problem with a limit of two seconds. -/
def twoSeconds : Setting where
  problem := .dict [("time_limit_ms", .int 2000), ("memory_limit_kb", .int 262144)]
  interactorCfg := .dict [("source", .str "interactor")]
  source := .str "user"
  languages := some (.script (.str "py") ["python3"])
  languageKey := .str "py"
  interactorLanguages := .script (.str "py") ["python3"]
  interactorKey := .str "py"

def acceptedRun : RunResult := ⟨.AC, ⟨.AC, 0, 0, 0, 0, ""⟩, "", "", ""⟩

/-- Both programs are accepted, the interactor at once and the user's after a while. -/
def lateRace (userFinish : ℚ) : Race :=
  ⟨⟨some userFinish, some acceptedRun⟩, ⟨some 0, some acceptedRun⟩, none, 0, 0, Race.noLag,
    Race.noLag⟩

def lateScript (userFinish : ℚ) : Script :=
  ⟨⟨0, acceptedRun.run, "", []⟩, ⟨0, true, none, none⟩, acceptedRun, true, lateRace userFinish⟩

def onlyCase : Value := .dict [("case_no", .int 1)]

end TwoSeconds

end InteractiveMode

end AcojWorker
