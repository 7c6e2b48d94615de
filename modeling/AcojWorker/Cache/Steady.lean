import AcojWorker.Cache.Discipline
import AcojWorker.Cache.Replay
import AcojWorker.Effect.Solo

/-!
# The cache on a steady disk

A thread performs its request while the others wait, with the locks they hold, and no call to
the file system fails unless the files give a reason. The clock goes on all the time. What is
said of one request in particular is said here: the disk of the runs allows all of it and more.
-/

namespace AcojWorker.FileCache

open Python Effect

/-! ### A disk on which nothing fails without a reason -/

/-- There is a file or a directory. -/
def World.Occupied (w : World) (path : Path) : Prop := (w.files path).isSome ∨ w.IsDir path

/-- What the answer of a call owes to the files. -/
def Reliable : (op : CacheOp) → World → Except Exc op.Answer → Prop
  | .ensureRoot, _, r => r = .ok ()
  | .rootExists, _, r => r = .ok true
  | .pathExists path, w, r => ∃ found, r = .ok found ∧ (w.Occupied path → found = true)
  | .loadJson path, w, r =>
      match w.files path with
      | some (.json _) => ∃ v, r = .ok v
      | some (.data _) => True
      | none => ∃ e : Exc, r = .error e ∧ (¬ w.IsDir path → e.kind = .fileNotFoundError)
  | .metaFiles, w, r => ∃ paths : List Path, r = .ok paths ∧ paths.Nodup ∧
      ∀ path, path ∈ paths ↔ isMetaFile path ∧ w.Occupied path
  | .mkdirParent path, w, r =>
      (∀ dir, dir <+: path → dir ≠ path → w.files dir = none) → r = .ok ()
  | .writeTemp _ _, _, r => r = .ok ()
  | .replace temp path, w, r =>
      ¬ w.IsDir path → (∃ owner file, w.temps temp = some (owner, some file)) → r = .ok ()
  | .unlinkTemp _, _, r => r = .ok ()
  | .unlink path, w, r =>
      match w.files path with
      | some _ => r = .ok ()
      | none => ∃ e : Exc, r = .error e ∧ e.isOSError
  | _, _, _ => True

/-- The answers of the disk that are reliable. -/
def steady : Machine CacheCalls Exc World where
  exec t op w r w' := disk.exec t op w r w' ∧ Reliable op w r
  drift := disk.drift

/-! ### What is lost -/

/-- Of the files those at some paths are lost; what else a thread sees stays as it is. -/
structure Loses (t : Nat) (gone : Path → Prop) (w w' : World) : Prop where
  lost : ∀ path, gone path → w'.files path = none
  kept : ∀ path, ¬ gone path → w'.files path = w.files path
  dirs : w'.dirs = w.dirs
  depth : ∀ key, w'.depth t key = w.depth t key
  free : ∀ key, w'.free t key = w.free t key
  returned : w'.returned = w.returned
  clock : w.clock ≤ w'.clock

/-- Nothing is lost. -/
abbrev Still (t : Nat) : World → World → Prop := Loses t fun _ => False

section Losses

variable {t : Nat} {gone gone' : Path → Prop} {w w₁ w' : World}

theorem still_refl (w : World) : Still t w w where
  lost := nofun
  kept _ _ := rfl
  dirs := rfl
  depth _ := rfl
  free _ := rfl
  returned := rfl
  clock := le_rfl

theorem Still.files (still : Still t w w') : w'.files = w.files :=
  funext fun path => still.kept path id

theorem Still.occupied (still : Still t w w') (path : Path) :
    w'.Occupied path ↔ w.Occupied path := by
  rw [World.Occupied, World.Occupied, World.IsDir, World.IsDir, still.files, still.dirs]

theorem Loses.trans (first : Loses t gone w w₁) (second : Loses t gone' w₁ w') :
    Loses t (fun path => gone path ∨ gone' path) w w' where
  lost path h := by
    by_cases later : gone' path
    · exact second.lost path later
    · rw [second.kept path later]
      exact first.lost path (h.resolve_right later)
  kept path h := by
    rw [not_or] at h
    exact (second.kept path h.2).trans (first.kept path h.1)
  dirs := second.dirs.trans first.dirs
  depth key := (second.depth key).trans (first.depth key)
  free key := (second.free key).trans (first.free key)
  returned := second.returned.trans first.returned
  clock := first.clock.trans second.clock

theorem Loses.congr (loses : Loses t gone w w') (same : ∀ path, gone' path ↔ gone path) :
    Loses t gone' w w' :=
  { loses with
    lost path h := loses.lost path ((same path).mp h)
    kept path h := loses.kept path (fun g => h ((same path).mpr g)) }

theorem Loses.before (loses : Loses t gone w₁ w') (still : Still t w w₁) : Loses t gone w w' :=
  (still.trans loses).congr fun _ => (iff_of_eq (false_or _)).symm

theorem Loses.after (loses : Loses t gone w w₁) (still : Still t w₁ w') : Loses t gone w w' :=
  (loses.trans still).congr fun _ => (iff_of_eq (or_false _)).symm

theorem still_drift (run : Relation.ReflTransGen steady.drift w w') : Still t w w' := by
  induction run with
  | refl => exact still_refl w
  | tail _ h ih =>
      obtain ⟨clock, later, rfl⟩ := h
      exact { ih with clock := ih.clock.trans later }

end Losses

/-! ### Calls -/

section Calls

variable {t : Nat} {w w' : World} {τ : Trace CacheCalls Exc}

/-- A call that changes nothing is answered at some moment of the call. -/
theorem still_call {op : CacheOp} {out : Except Exc op.Answer}
    (h : (call op).Performs steady t w τ out w')
    (quiet : ∀ w r w', exec t op w r w' → w' = w) :
    Still t w w' ∧ ∃ w₁, Still t w w₁ ∧ Still t w₁ w' ∧ exec t op w₁ out w₁ ∧
      Reliable op w₁ out := by
  obtain ⟨-, w₁, w₂, before, ⟨answers, reliable⟩, after⟩ := performs_perform h
  obtain rfl := quiet w₁ out w₂ answers
  have first : Still t w w₂ := still_drift before
  have second : Still t w₂ w' := still_drift after
  exact ⟨second.before first, w₂, first, second, answers, reliable⟩

theorem performs_rootExists {out : Except Exc Bool}
    (h : (call .rootExists).Performs steady t w τ out w') : out = .ok true ∧ Still t w w' := by
  obtain ⟨still, _, _, _, _, reliable⟩ := still_call h fun _ _ _ h => h
  exact ⟨reliable, still⟩

theorem performs_ensureRoot {out : Except Exc Unit}
    (h : (call .ensureRoot).Performs steady t w τ out w') : out = .ok () ∧ Still t w w' := by
  obtain ⟨still, _, _, _, _, reliable⟩ := still_call h fun _ _ _ h => h
  exact ⟨reliable, still⟩

theorem performs_pathExists {path : Path} {out : Except Exc Bool}
    (h : (call (.pathExists path)).Performs steady t w τ out w') :
    Still t w w' ∧ ∃ found, out = .ok found ∧ (found = true ↔ w.Occupied path) := by
  obtain ⟨still, w₁, before, _, ⟨_, answers⟩, found, rfl, there⟩ := still_call h fun _ _ _ h => h.1
  exact ⟨still, found, rfl, fun h => (before.occupied path).mp ((answers found rfl).2 h),
    fun h => there ((before.occupied path).mpr h)⟩

theorem performs_loadJson {path : Path} {out : Except Exc Value}
    (h : (call (.loadJson path)).Performs steady t w τ out w') :
    Still t w w' ∧ (∀ document, w.files path = some (.json document) → out = .ok document) ∧
      (w.files path = none →
        ∃ e : Exc, out = .error e ∧ (¬ w.IsDir path → e.kind = .fileNotFoundError)) := by
  obtain ⟨still, w₁, before, _, ⟨_, answers⟩, reliable⟩ := still_call h fun _ _ _ h => h.1
  simp only [Reliable, World.IsDir, before.files, before.dirs] at reliable answers
  refine ⟨still, fun document there => ?_, fun absent => ?_⟩
  · rw [there] at reliable answers
    obtain ⟨v, rfl⟩ := reliable
    exact congrArg _ (answers v rfl)
  · rw [absent] at reliable
    exact reliable

theorem performs_metaFiles {out : Except Exc (List Path)}
    (h : (call .metaFiles).Performs steady t w τ out w') :
    Still t w w' ∧ ∃ paths, out = .ok paths ∧ paths.Nodup ∧
      ∀ path, path ∈ paths ↔ isMetaFile path ∧ w.Occupied path := by
  obtain ⟨still, w₁, before, _, _, paths, rfl, nodup, listed⟩ := still_call h fun _ _ _ h => h.1
  refine ⟨still, paths, rfl, nodup, fun path => ?_⟩
  rw [listed path, before.occupied path]

theorem performs_now {out : Except Exc ℚ} (h : (call .now).Performs steady t w τ out w') :
    Still t w w' ∧ ∃ now, out = .ok now ∧ w.clock ≤ now ∧ now ≤ w'.clock := by
  obtain ⟨still, w₁, before, after, ⟨rfl, _⟩, _⟩ := still_call h fun _ _ _ h => h.2
  exact ⟨still, w₁.clock, rfl, before.clock, after.clock⟩

theorem performs_evictionTime {entries : List Entry} {since : Option ℚ} {out : Except Exc ℚ}
    (h : (call (.evictionTime entries since)).Performs steady t w τ out w') :
    Still t w w' ∧ ∃ now, out = .ok now ∧ w.clock ≤ now ∧ now ≤ w'.clock := by
  obtain ⟨-, w₁, w₂, before, ⟨⟨rfl, rfl⟩, -⟩, after⟩ := performs_perform h
  have first : Still t w w₁ := still_drift before
  have last : Still t _ w' := still_drift after
  have second : Still t w₁ { w₁ with before := Function.update w₁.before t w₁.returned } :=
    { still_refl w₁ with clock := le_rfl }
  exact ⟨last.before (second.before first), w₁.clock, rfl, first.clock, last.clock⟩

theorem performs_unlinkCall {path : Path} {out : Except Exc Unit}
    (h : (call (.unlink path)).Performs steady t w τ out w') :
    Loses t (· = path) w w' ∧ (out = .ok () ∨ ∃ e : Exc, out = .error e ∧ e.isOSError) := by
  obtain ⟨-, w₁, w₂, before, ⟨answers, reliable⟩, after⟩ := performs_perform h
  have first : Still t w w₁ := still_drift before
  have last : Still t w₂ w' := still_drift after
  suffices removed : Loses t (· = path) w₁ w₂ ∧ (out = .ok () ∨ ∃ e : Exc, out = .error e ∧ e.isOSError) by
    exact ⟨(removed.1.after last).before first, removed.2⟩
  simp only [Reliable] at reliable
  cases there : w₁.files path with
  | none =>
      rw [there] at reliable
      obtain ⟨e, rfl, os⟩ := reliable
      obtain ⟨_, _, rfl⟩ | ⟨impossible, _⟩ := answers
      · refine ⟨{ still_refl w₂ with lost := ?_, kept := fun _ _ => rfl }, .inr ⟨e, rfl, os⟩⟩
        intro p same
        exact same ▸ there
      · exact nomatch impossible
  | some file =>
      rw [there] at reliable
      obtain rfl : out = .ok () := reliable
      obtain ⟨_, impossible, _⟩ | ⟨_, rfl⟩ := answers
      · exact nomatch impossible
      · refine ⟨{ still_refl w₁ with lost := ?_, kept := ?_ }, .inl rfl⟩
        · intro p same
          exact same ▸ Function.update_self ..
        · exact fun p other => Function.update_of_ne other ..

end Calls

/-! ### Removing entries -/

section Programs

variable {t : Nat} {w w' : World} {τ : Trace CacheCalls Exc}

theorem performs_unlink {path : Path} {out : Except Exc Unit}
    (h : (unlink path).Performs steady t w τ out w') :
    out = .ok () ∧ Loses t (· = path) w w' := by
  have body : ∀ {τ out w'}, (do
      let found : Bool ← call (.pathExists path)
      if found then call (.unlink path) else pure () : Caching Unit).Performs steady t w τ out w' →
      Loses t (· = path) w w' ∧ (out = .ok () ∨ ∃ e : Exc, out = .error e ∧ e.isOSError) := by
    intro τ out w' h
    obtain ⟨e, raised, rfl⟩ | ⟨found, τ₁, τ₂, w₁, asked, rest, rfl⟩ := performs_bind h
    · obtain ⟨_, _, impossible, _⟩ := performs_pathExists raised
      exact nomatch impossible
    · obtain ⟨still, _, ⟨⟩, there⟩ := performs_pathExists asked
      cases found with
      | true =>
          obtain ⟨loses, outcome⟩ := performs_unlinkCall rest
          exact ⟨loses.before still, outcome⟩
      | false =>
          obtain ⟨-, rfl, run⟩ := performs_ret rest
          have later : Still t w w' := (still_drift run).before still
          refine ⟨{ later with lost := ?_, kept := fun p _ => later.kept p id }, .inl rfl⟩
          intro p same
          rw [same, later.kept path id]
          have absent := mt there.mpr Bool.false_ne_true
          rw [World.Occupied, not_or, Option.not_isSome_iff_eq_none] at absent
          exact absent.1
  obtain ⟨a, done, rfl⟩ | ⟨e, τ₁, τ₂, w₁, raised, handled, rfl⟩ := performs_tryCatch h
  · exact ⟨rfl, (body done).1⟩
  · obtain ⟨loses, impossible | ⟨_, ⟨⟩, os⟩⟩ := body raised
    · exact nomatch impossible
    · rw [if_pos os] at handled
      obtain ⟨-, rfl, run⟩ := performs_ret handled
      exact ⟨rfl, loses.after (still_drift run)⟩

theorem performs_removeEntry {key : Key} {out : Except Exc Unit}
    (h : (removeEntry key).Performs steady t w τ out w') :
    out = .ok () ∧ Loses t (Owns key) w w' := by
  obtain ⟨_, τ₁, τ₂, w₁, first, second, rfl⟩ :=
    performs_step h fun _ _ _ raised => nomatch (performs_unlink raised).1
  obtain ⟨rfl, loses⟩ := performs_unlink second
  exact ⟨rfl, (performs_unlink first).2.trans loses⟩

theorem free_of_depth {key : Key} (held : 0 < w.depth t key) : w.free t key = true := by
  rw [World.depth] at held
  rw [World.free]
  cases hl : w.locks key with
  | none => rfl
  | some holder =>
      rw [hl, timesHeld] at held
      split at held
      · next own => exact decide_eq_true own
      · exact absurd held (lt_irrefl 0)

theorem free_lock {key : Key} (free : w.free t key = true) (k : Key) :
    (w.lock t key).free t k = w.free t k := by
  by_cases same : k = key
  · rw [same, free]
    simp [World.free, World.lock]
  · simp [World.free, World.lock, same]

theorem free_release {key : Key} (held : 0 < w.depth t key) (outcome : Except Exc (Option Path))
    (k : Key) : (w.release t key outcome).free t k = w.free t k := by
  by_cases same : k = key
  · rw [same, free_of_depth held]
    by_cases last : w.depth t key ≤ 1 <;> simp [World.free, World.release, last]
  · simp [World.free, World.release, same]

/-- The block in between starts and ends with the lock. -/
theorem loses_locked {key : Key} {gone : Path → Prop} {w₁ : World}
    {outcome : Except Exc (Option Path)} (free : w.free t key = true)
    (unreturned : ∀ path, outcome ≠ .ok (some path)) (loses : Loses t gone (w.lock t key) w₁) :
    Loses t gone w (w₁.release t key outcome) := by
  have held : 0 < w₁.depth t key := by
    rw [loses.depth, depth_lock, if_pos rfl]
    exact Nat.succ_pos _
  refine ⟨loses.lost, loses.kept, loses.dirs, fun k => ?_, fun k => ?_, ?_, loses.clock⟩
  · rw [depth_release held, loses.depth, loses.depth, depth_lock, depth_lock]
    by_cases same : k = key
    · rw [if_pos same, if_pos rfl, same]
      rfl
    · rw [if_neg same, if_neg same]
  · rw [free_release held, loses.free, free_lock free]
  · rw [← show (w.lock t key).returned = w.returned from rfl, ← loses.returned]
    match outcome with
    | .error _ => rfl
    | .ok none => rfl
    | .ok (some path) => exact absurd rfl (unreturned path)

theorem performs_leaving {α : Type} {key : Key} {block : Caching α} {gone : Path → Prop}
    {result : Except Exc α} {out : Except Exc α} {w₀ : World} (free : w.free t key = true)
    (begun : Still t (w.lock t key) w₀)
    (h : (leaving key (fun _ => none) block).Performs steady t w₀ τ out w')
    (performs : ∀ w₁ τ out w₂, block.Performs steady t w₁ τ out w₂ →
      out = result ∧ Loses t gone w₁ w₂) :
    out = result ∧ Loses t gone w w' := by
  obtain ⟨outcome, τ₁, τ₂, w₁, done, rest, rfl⟩ := performs_step h fun τ e s' raised => by
    obtain ⟨_, impossible, _⟩ := performs_attempt raised
    exact nomatch impossible
  obtain ⟨_, ⟨⟩, inner⟩ := performs_attempt done
  obtain ⟨rfl, lost⟩ := performs _ _ _ _ inner
  have loses : Loses t gone (w.lock t key) w₁ := lost.before begun
  have held : 0 < w₁.depth t key := by
    rw [loses.depth, depth_lock, if_pos rfl]
    exact Nat.succ_pos _
  have unreturned : ∀ path : Path, outcome.map (fun _ => none) ≠ .ok (some path) := by
    intro path
    cases outcome <;> exact nofun
  have release : ∀ {τ out w'}, (call (.release key (outcome.map fun _ => none))).Performs steady t
      w₁ τ out w' → out = .ok () ∧ Loses t gone w w' := by
    intro τ out w' h
    obtain ⟨-, w₂, w₃, before, ⟨answers, -⟩, after⟩ := performs_perform h
    have passed : Still t w₁ w₂ := still_drift before
    obtain ⟨_, rfl, rfl⟩ | ⟨unheld, _, _⟩ := answers
    · exact ⟨rfl, (loses_locked free unreturned (loses.after passed)).after (still_drift after)⟩
    · rw [passed.depth] at unheld
      exact absurd unheld held.ne'
  obtain ⟨_, τ₃, τ₄, w₂, released, last, rfl⟩ :=
    performs_step rest fun _ _ _ raised => nomatch (release raised).1
  obtain ⟨-, rfl, run⟩ := performs_lift last
  exact ⟨rfl, (release released).2.after (still_drift run)⟩

/-- A block under a lock that is free is performed; otherwise nothing happens. -/
theorem performs_tryKeyLock {α : Type} {key : Key} {evicting : Option ℚ} {skipped : α}
    {block : Caching α} {gone : Path → Prop} {result : Except Exc α} {out : Except Exc α}
    (h : (tryKeyLock key evicting skipped block).Performs steady t w τ out w')
    (performs : ∀ w₁ τ out w₂, block.Performs steady t w₁ τ out w₂ →
      out = result ∧ Loses t gone w₁ w₂) :
    (w.free t key = true ∧ out = result ∧ Loses t gone w w') ∨
      (w.free t key = false ∧ out = .ok skipped ∧ Still t w w' ∧
        τ = [⟨.tryAcquire key evicting, .ok false⟩]) := by
  obtain ⟨e, raised, rfl⟩ | ⟨acquired, τ₁, τ₂, w₁, asked, rest, rfl⟩ := performs_bind h
  · obtain ⟨-, _, _, _, ⟨⟨_, impossible, _⟩ | ⟨_, impossible, _⟩, _⟩, _⟩ := performs_perform raised
    · exact nomatch impossible
    · exact nomatch impossible
  obtain ⟨rfl, w₂, w₃, before, ⟨answers, -⟩, after⟩ := performs_perform asked
  have first : Still t w w₂ := still_drift before
  have second : Still t w₃ w₁ := still_drift after
  obtain ⟨free, ⟨⟩, rfl⟩ | ⟨busy, ⟨⟩, rfl⟩ := answers
  · left
    obtain ⟨rfl, loses⟩ := performs_leaving free second rest performs
    exact ⟨(first.free key).symm.trans free, rfl, loses.before first⟩
  · right
    obtain ⟨rfl, rfl, run⟩ := performs_ret rest
    refine ⟨by simpa [first.free] using busy, rfl, ?_, rfl⟩
    exact ((still_drift run).before second).before first

/-- A block under a lock that is waited for. -/
theorem performs_withKeyLock {α : Type} {key : Key} {path : α → Option Path} {block : Caching α}
    {out : Except Exc α} (h : (withKeyLock key path block).Performs steady t w τ out w') :
    ∃ (outcome : Except Exc α) (τ₁ : Trace CacheCalls Exc) (w₀ w₁ w₂ w₃ w₄ : World)
      (r : Except Exc Unit),
      τ = ⟨.acquire key, .ok ()⟩ :: τ₁ ++ [⟨.release key (outcome.map path), r⟩] ∧
      Still t w w₀ ∧ w₀.free t key = true ∧ Still t (w₀.lock t key) w₁ ∧
      block.Performs steady t w₁ τ₁ outcome w₂ ∧ Still t w₂ w₃ ∧
      exec t (.release key (outcome.map path)) w₃ r w₄ ∧ Still t w₄ w' ∧
      (r = .ok () → out = outcome) := by
  have acquire : ∀ {τ out w'}, (call (.acquire key)).Performs steady t w τ out w' →
      out = .ok () ∧ τ = [⟨.acquire key, .ok ()⟩] ∧ ∃ w₀, Still t w w₀ ∧ w₀.free t key = true ∧
        Still t (w₀.lock t key) w' := by
    intro τ out w' h
    obtain ⟨hτ, w₁, w₂, before, ⟨⟨free, rfl, rfl⟩, -⟩, after⟩ := performs_perform h
    exact ⟨rfl, hτ, w₁, still_drift before, free, still_drift after⟩
  obtain ⟨_, τ₁, τ₂, w₁, locked, rest, rfl⟩ :=
    performs_step h fun _ _ _ raised => nomatch (acquire raised).1
  obtain ⟨-, rfl, w₀, first, free, second⟩ := acquire locked
  obtain ⟨outcome, τ₃, τ₄, w₂, done, last, rfl⟩ := performs_step rest fun τ e s' raised => by
    obtain ⟨_, impossible, _⟩ := performs_attempt raised
    exact nomatch impossible
  obtain ⟨_, ⟨⟩, inner⟩ := performs_attempt done
  obtain ⟨e, failed, rfl⟩ | ⟨_, τ₅, τ₆, w₅, released, ends, rfl⟩ := performs_bind last
  · obtain ⟨rfl, w₃, w₄, before, ⟨released, -⟩, after⟩ := performs_perform failed
    exact ⟨outcome, τ₃, w₀, w₁, w₂, w₃, w₄, .error e, rfl, first, free, second, inner,
      still_drift before, released, still_drift after, nofun⟩
  · obtain ⟨rfl, w₃, w₄, before, ⟨released, -⟩, after⟩ := performs_perform released
    obtain ⟨rfl, rfl, run⟩ := performs_lift ends
    exact ⟨_, τ₃, w₀, w₁, w₂, w₃, w₄, .ok (), by simp, first, free, second, inner,
      still_drift before, released, (still_drift run).before (still_drift after), fun _ => rfl⟩

/-- A call that does not change the state. -/
def Quiet : CacheOp → Prop
  | .ensureRoot | .rootExists | .pathExists _ | .loadJson _ | .metaFiles | .now | .getStorage
  | .headObject _ => True
  | _ => False

theorem exec_quiet {op : CacheOp} {r : Except Exc op.Answer} (quiet : Quiet op)
    (h : exec t op w r w') : w' = w := by
  cases op with
  | ensureRoot | rootExists | getStorage | headObject => exact h
  | pathExists | loadJson | metaFiles => exact h.1
  | now => exact h.2
  | _ => exact absurd quiet id

theorem still_of_quiet {α : Type} {p : Caching α} {out : Except Exc α} (quiet : p.Calls Quiet)
    (h : p.Performs steady t w τ out w') : Still t w w' := by
  induction p generalizing w τ with
  | ret a =>
      obtain ⟨-, -, run⟩ := performs_ret h
      exact still_drift run
  | raise e =>
      obtain ⟨-, -, run⟩ := performs_raise h
      exact still_drift run
  | call op next ih =>
      obtain ⟨w₁, r, w₂, rest, before, ⟨answers, -⟩, rfl, further⟩ := performs_call h
      have same : w₂ = w₁ := exec_quiet quiet.1 answers
      exact (ih r (quiet.2 r) further).before (same ▸ still_drift before)

end Programs

/-! ### Scripted answers -/

instance (w : World) (path : Path) : Decidable (w.IsDir path) :=
  inferInstanceAs (Decidable (∃ file ∈ w.dirs, path <+: file ∧ path ≠ file))

instance (w : World) (path : Path) : Decidable (w.Occupied path) :=
  inferInstanceAs (Decidable (_ ∨ _))

/-- Nothing fails, and files are made where the walk looks only. -/
def steadily (around : Surroundings) (head : Except Exc (Option String)) (t : Nat) :
    Script CacheCalls Exc World
  | .pathExists path, w => some (.ok (decide (w.Occupied path)), w)
  | .metaFiles, w =>
      some (.ok (around.walk.dedup.filter fun path => isMetaFile path && decide (w.Occupied path)), w)
  | .headObject _, w => some (head, w)
  | .unlink path, w =>
      match w.files path with
      | some _ => some (.ok (), w.remove path)
      | none => some (.error ⟨.osError, "no such file"⟩, w)
  | .mkdirParent path, w =>
      if ∀ dir ∈ path.inits, isMetaFile dir → dir ∈ around.walk then some (.ok (), w.makeDirs path)
      else none
  | .replace temp path, w =>
      if path ∈ around.walk then answer around t (.replace temp path) w else none
  | op, w => answer around t op w

/-- The walk looks at every file that may be a meta file. -/
def Covered (walk : List Path) (w : World) : Prop :=
  ∀ path, isMetaFile path = true → w.Occupied path → path ∈ walk

theorem covered_same {walk : List Path} {w w' : World} (covered : Covered walk w)
    (files : w'.files = w.files) (dirs : w'.dirs = w.dirs) : Covered walk w' := by
  intro path named there
  rw [World.Occupied, World.IsDir, files, dirs] at there
  exact covered path named there

theorem steadily_follows {around : Surroundings} {head : Except Exc (Option String)} {t : Nat}
    (op : CacheOp) (w : World) (r : Except Exc op.Answer) (w' : World)
    (covered : Covered around.walk w) (h : steadily around head t op w = some (r, w')) :
    steady.exec t op w r w' ∧ Covered around.walk w' := by
  cases op with
  | pathExists path =>
      cases h
      refine ⟨⟨⟨rfl, ?_⟩, _, rfl, fun there => decide_eq_true there⟩, covered⟩
      rintro _ ⟨⟩
      exact ⟨fun there => decide_eq_true (.inl there), of_decide_eq_true⟩
  | metaFiles =>
      cases h
      refine ⟨⟨⟨rfl, ?_⟩, _, rfl, (List.nodup_dedup _).filter _, fun path => ?_⟩, covered⟩
      · rintro _ ⟨⟩ path mem
        exact (Bool.and_eq_true_iff.mp (List.mem_filter.mp mem).2).1
      · rw [List.mem_filter, List.mem_dedup, Bool.and_eq_true, decide_eq_true_iff]
        exact ⟨fun both => both.2, fun both => ⟨covered path both.1 both.2, both⟩⟩
  | headObject objectName =>
      cases h
      exact ⟨⟨rfl, trivial⟩, covered⟩
  | unlink path =>
      rw [steadily] at h
      cases there : w.files path with
      | none =>
          rw [there] at h
          cases h
          refine ⟨⟨.inl ⟨_, rfl, rfl⟩, ?_⟩, covered⟩
          simp only [Reliable, there]
          exact ⟨_, rfl, rfl⟩
      | some file =>
          rw [there] at h
          cases h
          refine ⟨⟨.inr ⟨rfl, rfl⟩, ?_⟩, fun p named left => covered p named (left.imp ?_ id)⟩
          · simp only [Reliable, there]
            exact rfl
          · intro left
            obtain ⟨file, hfile⟩ := Option.isSome_iff_exists.mp left
            rw [files_of_remove hfile]
            rfl
  | mkdirParent path =>
      rw [steadily] at h
      split at h
      · next above =>
          cases h
          refine ⟨⟨.inr rfl, fun _ => rfl⟩, fun p named there => ?_⟩
          rcases there with there | ⟨file, mem, below, apart⟩
          · exact covered p named (.inl there)
          · rcases List.mem_cons.mp mem with rfl | mem
            · exact above p ((List.mem_inits p file).mpr below) named
            · exact covered p named (.inr ⟨file, mem, below, apart⟩)
      · cases h
  | replace temp path =>
      rw [steadily] at h
      split at h
      · next mem =>
          have exec := exec_of_answer h
          rw [answer] at h
          split at h
          · next owner file _ =>
              cases h
              refine ⟨⟨exec, fun _ _ => rfl⟩, fun p named there => ?_⟩
              by_cases same : p = path
              · exact same ▸ mem
              · refine covered p named (there.imp (fun there => ?_) id)
                exact (congrArg Option.isSome (Function.update_of_ne same ..)).symm.trans there
          · cases h
      · cases h
  | loadJson path =>
      have exec := @exec_of_answer around t (.loadJson path) w w' r h
      change answer around t (.loadJson path) w = _ at h
      rw [answer] at h
      split at h
      · next document there =>
          cases h
          refine ⟨⟨exec, ?_⟩, covered⟩
          simp only [Reliable, there]
          exact ⟨_, rfl⟩
      · cases h
      · next there =>
          cases h
          refine ⟨⟨exec, ?_⟩, covered⟩
          simp only [Reliable, there]
          exact ⟨_, rfl, fun _ => rfl⟩
  | acquire key =>
      have exec := @exec_of_answer around t (.acquire key) w w' r h
      exact ⟨⟨exec, trivial⟩, covered_same covered (exec.2.2 ▸ rfl) (exec.2.2 ▸ rfl)⟩
  | tryAcquire key evicting =>
      have exec := @exec_of_answer around t (.tryAcquire key evicting) w w' r h
      refine ⟨⟨exec, trivial⟩, ?_⟩
      obtain ⟨_, _, rfl⟩ | ⟨_, _, rfl⟩ := exec
      · exact covered
      · exact covered
  | release key outcome =>
      have exec := @exec_of_answer around t (.release key outcome) w w' r h
      refine ⟨⟨exec, trivial⟩, ?_⟩
      obtain ⟨_, _, rfl⟩ | ⟨_, _, rfl⟩ := exec
      · exact covered
      · exact covered
  | tempSibling path =>
      have exec := @exec_of_answer around t (.tempSibling path) w w' r h
      refine ⟨⟨exec, trivial⟩, ?_⟩
      obtain ⟨_, _, _, rfl⟩ := exec
      exact covered
  | writeTemp | unlinkTemp | ensureRoot | rootExists =>
      cases h
      exact ⟨⟨@exec_of_answer around t _ w _ _ rfl, rfl⟩, covered⟩
  | download | now | evictionTime | getStorage =>
      cases h
      exact ⟨⟨@exec_of_answer around t _ w _ _ rfl, trivial⟩, covered⟩
  | downloadDirect => cases h

end AcojWorker.FileCache
