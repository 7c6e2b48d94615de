import AcojWorker.Cache.FileCache
import AcojWorker.Effect.Sequential

/-!
# Concrete runs of the cache

Nothing fails: files are there when they have been put, the remote storage holds every object,
and a walk through the directories finds given files.
-/

namespace AcojWorker.FileCache

open Python Effect

/-- What the calls of a concrete run find outside of the cache. -/
structure Surroundings where
  walk : List Path
  remote : String → Bytes
  etag : String

/-- An unused temporary file; a thread has two at most. -/
def freshTemp (w : World) : Option Nat :=
  if w.temps 0 = none then some 0 else if w.temps 1 = none then some 1 else none

instance (w : World) (i : Nat) : Decidable (w.temps i = none) :=
  decidable_of_iff _ Option.isNone_iff_eq_none

def answer (around : Surroundings) (t : Nat) : Script CacheCalls Exc World
  | .acquire key, w => if w.free t key then some (.ok (), w.lock t key) else none
  | .tryAcquire key _, w =>
      if w.free t key then some (.ok true, w.lock t key) else some (.ok false, w)
  | .release key outcome, w =>
      if 0 < w.depth t key then some (.ok (), w.release t key outcome) else none
  | .ensureRoot, w => some (.ok (), w)
  | .rootExists, w => some (.ok true, w)
  | .pathExists path, w => some (.ok (w.files path).isSome, w)
  | .loadJson path, w =>
      match w.files path with
      | some (.json document) => some (.ok document, w)
      | some (.data _) => none
      | none => some (.error ⟨.fileNotFoundError, "no such file"⟩, w)
  | .metaFiles, w => some (.ok (around.walk.filter isMetaFile), w)
  | .now, w => some (.ok w.clock, w)
  | .evictionTime _ _, w =>
      some (.ok w.clock, { w with before := Function.update w.before t w.returned })
  | .getStorage, w => some (.ok (), w)
  | .headObject _, w => some (.ok (some around.etag), w)
  | .download objectName, w =>
      some (.ok (around.remote objectName),
        { w with fetched := Function.update w.fetched t (some (around.remote objectName)) })
  | .downloadDirect _, _ => none
  | .mkdirParent path, w => some (.ok (), w.makeDirs path)
  | .tempSibling _, w => (freshTemp w).map fun temp => (.ok temp, w.setTemp temp (some (t, none)))
  | .writeTemp temp file, w => some (.ok (), w.setTemp temp (some (t, some file)))
  | .replace temp path, w =>
      match w.temps temp with
      | some (_, some file) => some (.ok (), (w.setTemp temp none).put path file)
      | _ => none
  | .unlinkTemp temp, w => some (.ok (), w.setTemp temp none)
  | .unlink path, w => some (.ok (), w.remove path)

theorem freshTemp_unused {w : World} {temp : Nat} (h : freshTemp w = some temp) :
    w.temps temp = none := by
  rw [freshTemp] at h
  split at h
  · next unused => exact Option.some.inj h ▸ unused
  · split at h
    · next unused => exact Option.some.inj h ▸ unused
    · exact nomatch h

/-- The answers are answers of the disk. -/
theorem exec_of_answer {around : Surroundings} {t : Nat} {op : CacheOp} {w w' : World}
    {r : Except Exc op.Answer} (h : answer around t op w = some (r, w')) :
    disk.exec t op w r w' := by
  cases op with
  | acquire key =>
      rw [answer] at h
      split at h
      · next free =>
          cases h
          exact ⟨free, rfl, rfl⟩
      · exact nomatch h
  | tryAcquire key evicting =>
      rw [answer] at h
      split at h
      · next free =>
          cases h
          exact .inl ⟨free, rfl, rfl⟩
      · next busy =>
          cases h
          exact .inr ⟨busy, rfl, rfl⟩
  | release key outcome =>
      rw [answer] at h
      split at h
      · next held =>
          cases h
          exact .inl ⟨held, rfl, rfl⟩
      · exact nomatch h
  | pathExists path =>
      cases h
      refine ⟨rfl, ?_⟩
      rintro _ ⟨⟩
      exact ⟨id, .inl⟩
  | loadJson path =>
      rw [answer] at h
      split at h
      · next document there =>
          cases h
          refine ⟨rfl, ?_⟩
          rintro _ ⟨⟩
          rw [there]
          exact rfl
      · exact nomatch h
      · cases h
        exact ⟨rfl, nofun⟩
  | metaFiles =>
      cases h
      refine ⟨rfl, ?_⟩
      rintro _ ⟨⟩ path hpath
      exact (List.mem_filter.mp hpath).2
  | tempSibling path =>
      obtain ⟨temp, fresh, hr⟩ := Option.map_eq_some_iff.mp h
      cases hr
      exact ⟨temp, freshTemp_unused fresh, rfl, rfl⟩
  | replace temp path =>
      rw [answer] at h
      split at h
      · next owner file there =>
          cases h
          exact .inr ⟨owner, file, there, rfl, rfl⟩
      · exact nomatch h
  | download objectName =>
      cases h
      exact .inr ⟨_, rfl, rfl⟩
  | mkdirParent path =>
      cases h
      exact .inr rfl
  | writeTemp temp file =>
      cases h
      exact .inr ⟨rfl, rfl⟩
  | unlinkTemp temp =>
      cases h
      exact .inr ⟨rfl, rfl⟩
  | unlink path =>
      cases h
      exact .inr ⟨rfl, rfl⟩
  | downloadDirect => exact nomatch h
  | now | evictionTime =>
      cases h
      exact ⟨rfl, rfl⟩
  | ensureRoot | rootExists | getStorage | headObject =>
      cases h
      exact rfl

/-! ### One request after the other -/

inductive Event where
  | wait (seconds : Nat)
  | ask (r : Request)

def Event.request? : Event → Option Request
  | .wait _ => none
  | .ask r => some r

/-- The cache after a history of requests, each answered before the next one is made. -/
def World.after (script : Script CacheCalls Exc World) (settings : Settings) :
    List Event → World → Option World
  | [], w => some w
  | .wait seconds :: events, w => after script settings events { w with clock := w.clock + seconds }
  | .ask r :: events, w =>
      match (r.program settings).complete script w with
      | some w' => after script settings events w'
      | none => none

/-- A history is a run. -/
theorem reachable_after {settings : Settings} {Q : Request → Prop}
    {allowed : Nat → CacheOp → World → Prop} {t : Nat} {script : Script CacheCalls Exc World}
    (follows : script.Follows disk allowed t) {events : List Event}
    (asks : ∀ r, .ask r ∈ events → Q r) {w₀ w w' : World}
    (idle : Pool.Reachable disk (fun p => ∃ r, Q r ∧ p = r.program settings) allowed w₀
      ⟨fun _ => none, w⟩)
    (h : World.after script settings events w = some w') :
    Pool.Reachable disk (fun p => ∃ r, Q r ∧ p = r.program settings) allowed w₀
      ⟨fun _ => none, w'⟩ := by
  induction events generalizing w with
  | nil =>
      cases h
      exact idle
  | cons event events ih =>
      have later : ∀ r, .ask r ∈ events → Q r :=
        fun r hr => asks r (List.mem_cons_of_mem _ hr)
      cases event with
      | wait seconds =>
          refine ih later (reachable_drift idle ⟨w.clock + seconds, ?_, rfl⟩) h
          exact le_add_of_nonneg_right (Nat.cast_nonneg seconds)
      | ask r =>
          rw [World.after] at h
          split at h
          · next w₁ done =>
              exact ih later (reachable_complete follows
                ⟨r, asks r (List.mem_cons_self ..), rfl⟩ idle done) h
          · exact nomatch h

/-! ### Returned paths -/

/-- The call at which a block returns a path. -/
def isReturn : CacheOp → Bool
  | .release _ (.ok (some _)) => true
  | _ => false

def File.content? : File → Option Bytes
  | .data content => some content
  | .json _ => none

/-- The key and the path of a block that is about to return, and what is there. -/
def returning : Caching Unit × World → Option (Key × Path × Option (Option Bytes))
  | (.call (.release key (.ok (some path))) _, w) =>
      some (key, path, (w.files path).map File.content?)
  | _ => none

theorem returning_eq_some {q : Caching Unit} {w : World} {key : Key} {path : Path}
    {file : Option (Option Bytes)} (h : returning (q, w) = some (key, path, file)) :
    ∃ next, q = .call (.release key (.ok (some path))) next ∧
      (w.files path).map File.content? = file := by
  unfold returning at h
  split at h
  · next _ _ next _ same =>
      cases same
      cases h
      exact ⟨next, rfl, rfl⟩
  · exact nomatch h

/-- What a request returns after a history. -/
def returnedAfter (script : Script CacheCalls Exc World) (settings : Settings)
    (events : List Event) (r : Request) : Option (Key × Path × Option (Option Bytes)) := do
  let w ← World.after script settings events (World.start 0)
  let c ← (r.program settings).advance script isReturn w
  returning c

theorem reachable_returning {settings : Settings} {Q : Request → Prop}
    {allowed : Nat → CacheOp → World → Prop} {t : Nat} {script : Script CacheCalls Exc World}
    (follows : script.Follows disk allowed t) {events : List Event} {r : Request}
    (asks : ∀ r' ∈ r :: events.filterMap Event.request?, Q r') {key : Key} {path : Path}
    {file : Option (Option Bytes)} (h : returnedAfter script settings events r = some (key, path, file)) :
    ∃ c next, Pool.Reachable disk (fun p => ∃ r, Q r ∧ p = r.program settings) allowed
        (World.start 0) c ∧
      c.threads t = some (.call (.release key (.ok (some path))) next) ∧
      (c.state.files path).map File.content? = file := by
  obtain ⟨w, hw, h⟩ := Option.bind_eq_some_iff.mp h
  obtain ⟨⟨q, w'⟩, hadvance, h⟩ := Option.bind_eq_some_iff.mp h
  have idle := reachable_after follows (fun r' hr' => asks r' (List.mem_cons_of_mem _
    (List.mem_filterMap.mpr ⟨_, hr', rfl⟩))) .refl hw
  have run := reachable_advance follows ⟨r, asks r (List.mem_cons_self ..), rfl⟩ idle hadvance
  obtain ⟨next, rfl, there⟩ := returning_eq_some h
  exact ⟨_, next, run, Pool.single_threads .., there⟩

end AcojWorker.FileCache
