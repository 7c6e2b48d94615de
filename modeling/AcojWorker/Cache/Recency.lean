import AcojWorker.Cache.ConfinedRuns
import AcojWorker.Cache.PlainKeys
import AcojWorker.Cache.Revalidation
import AcojWorker.Effect.Schedule

/-!
# Recorded and real access times

An eviction judges an entry by the access time that its meta file records. The record is written
by a store, a validation and a touch, under the lock of the key, and never gets older. It is as
good as the real access times if every return of a path finds its own moment recorded.
-/

namespace AcojWorker.FileCache

open Python Effect Discipline

/-- The access time that a meta file records. -/
def accessedAt (document : Value) : Except Exc ℚ := do
  (← document.get "last_accessed_at" (.int 0)).number

theorem accessedAt_setItem {document document' : Value} {now : ℚ}
    (h : document.setItem "last_accessed_at" (.float now) = .ok document') :
    accessedAt document' = .ok now := by
  cases document with
  | dict fields =>
      cases h
      rw [accessedAt, Value.get, Value.lookup_setField, if_pos rfl]
      rfl
  | _ => exact nomatch h

theorem accessedAt_update {document document' : Value} {validated now : ℚ}
    (h : document.update [("last_validated_at", .float validated),
      ("last_accessed_at", .float now)] = .ok document') : accessedAt document' = .ok now := by
  cases document with
  | dict fields =>
      cases h
      change accessedAt (.dict (Value.setField _ _ (Value.setField _ _ fields))) = _
      rw [accessedAt, Value.get, Value.lookup_setField, if_pos rfl]
      rfl
  | _ => exact nomatch h

section Aging

variable (keys watched : Set Key)

/-- Every meta file records an access time, and for the keys that are watched no path has been
returned later. -/
structure Aged (w : World) : Prop where
  dated : ∀ key ∈ keys, ∀ file, w.files (metaPath key) = some file →
    ∃ document accessed, file = .json document ∧ accessedAt document = .ok accessed ∧
      (key ∈ watched → ∀ s, (key, s) ∈ w.returned → s ≤ accessed)
  past : ∀ key s, (key, s) ∈ w.returned → s ≤ w.clock

/-- What other threads leave alone: the locks of a thread, what has been returned under them, its
temporary files, and what had been returned when it last took the time of an eviction. -/
structure Undisturbed (t : Nat) (w w' : World) : Prop where
  depth : ∀ key, w'.depth t key = w.depth t key
  returned : ∀ key, 0 < w.depth t key → ∀ s, (key, s) ∈ w'.returned → (key, s) ∈ w.returned
  temps : ∀ temp x, w.temps temp = some (t, x) → w'.temps temp = some (t, x)
  before : w'.before t = w.before t

/-- When the path of a watched entry is returned, the entry has been recorded as accessed now;
and when an eviction takes its time, the watched entries are still recorded as it has read
them. -/
def Punctual (_ : Nat) : CacheOp → World → Prop
  | .release key (.ok (some _)), w => key ∈ watched → ∀ document accessed,
      w.files (metaPath key) = some (.json document) → accessedAt document = .ok accessed →
        w.clock ≤ accessed
  | .evictionTime entries _, w => ∀ entry ∈ entries, entry.key ∈ watched →
      ∃ document, w.files (metaPath entry.key) = some (.json document) ∧
        document.get "last_accessed_at" (.int 0) = .ok entry.lastAccessed
  | _, _ => True

/-- An eviction does not try to lock a watched entry if its path had been returned within the
grace period when the eviction took its time. -/
def SparesRecent (t : Nat) : CacheOp → World → Prop
  | .tryAcquire key (some now), w => key ∈ watched → ∀ s, (key, s) ∈ w.before t →
      s + lruGracePeriod < now
  | _, _ => True

def aging : Discipline disk where
  inv := Aged keys watched
  rely := Undisturbed
  idle _ _ := True
  allowed := Punctual watched
  good := SparesRecent watched
  rely_refl _ _ := ⟨fun _ => rfl, fun _ _ _ h => h, fun _ _ h => h, rfl⟩
  rely_trans := by
    intro t w w' w'' first second
    refine ⟨fun key => (second.depth key).trans (first.depth key), fun key held s mem => ?_,
      fun temp x hx => second.temps temp x (first.temps temp x hx),
      second.before.trans first.before⟩
    exact first.returned key held s (second.returned key (by rwa [first.depth]) s mem)
  idle_stable _ _ := trivial
  drift_ok := by
    rintro w _ aged ⟨clock, later, rfl⟩
    exact ⟨⟨aged.dated, fun key s mem => (aged.past key s mem).trans later⟩,
      fun t => ⟨fun _ => rfl, fun _ _ _ h => h, fun _ _ h => h, rfl⟩⟩

end Aging

section Calls

variable {keys watched : Set Key} {t : Nat} {w w' : World}

/-- A call that writes no file, returns no path and takes no time for an eviction. -/
def Mild : CacheOp → Prop
  | .writeTemp .. | .replace .. | .unlinkTemp _ | .release _ (.ok (some _)) | .evictionTime ..
  | .tryAcquire _ (some _) => False
  | _ => True

/-- What such a call may change. -/
structure Frame (t : Nat) (w w' : World) : Prop where
  files : ∀ path file, w'.files path = some file → w.files path = some file
  returned : w'.returned = w.returned
  clock : w'.clock = w.clock
  before : w'.before = w.before
  temps : ∀ temp x, w.temps temp = some x → w'.temps temp = some x
  depth : ∀ u, u ≠ t → ∀ key, w'.depth u key = w.depth u key

theorem frame_refl (t : Nat) (w : World) : Frame t w w where
  files _ _ h := h
  returned := rfl
  clock := rfl
  before := rfl
  temps _ _ h := h
  depth _ _ _ := rfl

theorem frame_lock {key : Key} (free : w.free t key = true) : Frame t w (w.lock t key) :=
  { frame_refl t w with depth := fun _ other => depth_lock_other free other }

theorem frame_release {key : Key} (held : 0 < w.depth t key) {outcome : Except Exc (Option Path)}
    (pathless : ∀ path, outcome ≠ .ok (some path)) : Frame t w (w.release t key outcome) where
  files _ _ h := h
  returned := by
    match outcome, pathless with
    | .error _, _ | .ok none, _ => rfl
    | .ok (some path), pathless => exact absurd rfl (pathless path)
  clock := rfl
  before := rfl
  temps _ _ h := h
  depth _ other := depth_release_other held outcome other

theorem frame_exec {op : CacheOp} {r : Except Exc op.Answer} (mild : Mild op)
    (h : exec t op w r w') : Frame t w w' := by
  cases op with
  | acquire key =>
      obtain ⟨free, -, rfl⟩ := h
      exact frame_lock free
  | tryAcquire key evicting =>
      obtain ⟨free, -, rfl⟩ | ⟨-, -, rfl⟩ := h
      · exact frame_lock free
      · exact frame_refl ..
  | release key outcome =>
      obtain ⟨held, -, rfl⟩ | ⟨-, -, rfl⟩ := h
      · refine frame_release held ?_
        rintro path rfl
        exact mild
      · exact frame_refl ..
  | download =>
      obtain ⟨_, -, rfl⟩ | ⟨_, -, rfl⟩ := h
      · exact frame_refl ..
      · exact { frame_refl t _ with files := fun _ _ h => h }
  | tempSibling path =>
      obtain ⟨temp, unused, -, rfl⟩ := h
      refine { frame_refl t w with files := fun _ _ h => h, temps := fun i x hx => ?_ }
      have apart : i ≠ temp := by
        rintro rfl
        exact nomatch unused.symm.trans hx
      exact (Function.update_of_ne apart ..).trans hx
  | mkdirParent path =>
      obtain rfl | rfl := h
      · exact frame_refl ..
      · exact { frame_refl t _ with files := fun _ _ h => h }
  | unlink path =>
      obtain ⟨_, -, rfl⟩ | ⟨-, rfl⟩ := h
      · exact frame_refl ..
      · exact { frame_refl t _ with files := fun _ _ left => files_of_remove left }
  | now =>
      obtain ⟨-, rfl⟩ := h
      exact frame_refl ..
  | pathExists | loadJson | metaFiles =>
      obtain ⟨rfl, -⟩ := h
      exact frame_refl ..
  | ensureRoot | rootExists | getStorage | headObject | downloadDirect =>
      obtain rfl : w' = w := h
      exact frame_refl ..
  | writeTemp | replace | unlinkTemp | evictionTime => exact mild.elim

variable (aged : Aged keys watched w)

include aged

theorem aged_frame (frame : Frame t w w') : Aged keys watched w' where
  dated key mem file there := by
    rw [frame.returned]
    exact aged.dated key mem file (frame.files _ file there)
  past key s mem := by
    rw [frame.clock]
    exact aged.past key s (frame.returned ▸ mem)

theorem keeps_frame (frame : Frame t w w') : (aging keys watched).Keeps t w w' := by
  refine ⟨aged_frame aged frame, fun u other => ⟨frame.depth u other, fun key _ s mem => ?_,
    fun temp x hx => frame.temps temp (u, x) hx, congrFun frame.before u⟩⟩
  exact frame.returned ▸ mem

end Calls

/-! ### Rules -/

section Rules

variable {keys watched : Set Key} {t : Nat} {α : Type} {P : World → Prop}

/-- A program of mild calls keeps what survives them. -/
theorem triple_mild {p : Caching α} (made : p.Calls Mild)
    (stable : (aging keys watched).Stable t P) (framed : ∀ w w', P w → Frame t w w' → P w') :
    (aging keys watched).Triple t P p fun _ => P := by
  refine triple_calls made stable (fun op w mild _ _ _ => ?_) fun op w r w' mild aged hP _ h => ?_
  · cases op with
    | tryAcquire key evicting =>
        cases evicting with
        | none => exact trivial
        | some now => exact mild.elim
    | _ => exact trivial
  · exact ⟨keeps_frame aged (frame_exec mild h), framed w w' hP (frame_exec mild h)⟩

theorem triple_any {p : Caching α} (made : p.Calls Mild) :
    (aging keys watched).Triple t (fun _ => True) p fun _ _ => True :=
  triple_mild made (fun _ _ _ _ => trivial) fun _ _ _ _ => trivial

/-- A program that only looks keeps whatever the others do not spoil. -/
theorem triple_quiet {p : Caching α} (made : p.Calls Quiet)
    (stable : (aging keys watched).Stable t P) : (aging keys watched).Triple t P p fun _ => P := by
  refine triple_calls made stable (fun op w quiet _ _ _ => ?_) fun op w r w' quiet aged hP _ h => ?_
  · cases op with
    | tryAcquire => exact absurd quiet id
    | _ => exact trivial
  · obtain rfl := exec_quiet quiet h
    exact ⟨keeps_frame aged (frame_refl t w'), hP⟩

/-- A thread has locked a key; it has taken a time when nothing had been returned later under
the lock, and written temporary files. -/
structure Grasps (t : Nat) (key : Key) (time : Option ℚ) (temps : Nat → Option (Option File))
    (w : World) : Prop where
  held : 0 < w.depth t key
  seen : ∀ now, time = some now → ∀ s, (key, s) ∈ w.returned → s ≤ now
  temps : ∀ temp x, temps temp = some x → w.temps temp = some (t, x)

variable {key : Key} {time : Option ℚ} {temps : Nat → Option (Option File)}

theorem grasps_stable : (aging keys watched).Stable t (Grasps t key time temps) := by
  intro w w' grasps rely
  refine ⟨by rw [rely.depth]; exact grasps.held, fun now taken s mem => ?_,
    fun temp x hx => rely.temps temp x (grasps.temps temp x hx)⟩
  exact grasps.seen now taken s (rely.returned key grasps.held s mem)

theorem grasps_now {E : Exc → World → Prop} :
    (aging keys watched).Triple t (Grasps t key time temps) (call .now)
      (Post (fun (now : ℚ) => Grasps t key (some now) temps) E) := by
  refine triple_perform grasps_stable (fun _ _ _ _ => trivial) ?_
  rintro w _ _ aged grasps _ ⟨rfl, rfl⟩
  refine ⟨keeps_frame aged (frame_refl t _), grasps.held, ?_, grasps.temps⟩
  rintro _ ⟨⟩ s mem
  exact aged.past key s mem

theorem grasps_mkdirParent (path : Path) :
    (aging keys watched).Triple t (Grasps t key time temps) (call (.mkdirParent path))
      fun _ => Grasps t key time temps := by
  refine triple_perform grasps_stable (fun _ _ _ _ => trivial) ?_
  intro w r w' aged grasps _ h
  refine ⟨keeps_frame aged (@frame_exec t w w' (.mkdirParent path) r trivial h), ?_⟩
  obtain rfl | rfl := h
  · exact grasps
  · exact ⟨grasps.held, grasps.seen, grasps.temps⟩

/-- A new temporary file is the thread's own. -/
theorem grasps_newTemp (path : Path) {E : Exc → World → Prop} :
    (aging keys watched).Triple t (Grasps t key time temps) (call (.tempSibling path))
      (Post (fun (temp : Nat) w => temps temp = none ∧
        Grasps t key time (Function.update temps temp (some none)) w) E) := by
  refine triple_perform grasps_stable (fun _ _ _ _ => trivial) ?_
  intro w r w' aged grasps _ h
  refine ⟨keeps_frame aged (@frame_exec t w w' (.tempSibling path) r trivial h), ?_⟩
  obtain ⟨temp, unused, rfl, rfl⟩ := h
  have fresh : temps temp = none := by
    by_contra known
    obtain ⟨x, hx⟩ := Option.ne_none_iff_exists'.mp known
    exact nomatch unused.symm.trans (grasps.temps temp x hx)
  refine ⟨fresh, grasps.held, grasps.seen, fun i x hx => ?_⟩
  by_cases same : i = temp
  · subst same
    rw [Function.update_self] at hx
    cases hx
    exact Function.update_self ..
  · rw [Function.update_of_ne same] at hx
    exact (Function.update_of_ne same ..).trans (grasps.temps i x hx)

/-- The thread writes to a temporary file of its own. -/
theorem grasps_setTemp {temp : Nat} {x : Option File} (y : Option File) {w : World}
    (aged : Aged keys watched w) (grasps : Grasps t key time (Function.update temps temp (some x)) w) :
    (aging keys watched).Keeps t w (w.setTemp temp (some (t, y))) ∧
      Grasps t key time (Function.update temps temp (some y)) (w.setTemp temp (some (t, y))) := by
  have own := grasps.temps temp x (Function.update_self ..)
  refine ⟨⟨⟨aged.dated, aged.past⟩, fun u other => ⟨fun _ => rfl, fun _ _ _ h => h,
    fun i z hz => ?_, rfl⟩⟩, grasps.held, grasps.seen, fun i z hz => ?_⟩
  · have apart : i ≠ temp := by
      rintro rfl
      exact other (congrArg Prod.fst (Option.some.inj (hz.symm.trans own)))
    exact (Function.update_of_ne apart ..).trans hz
  · by_cases same : i = temp
    · subst same
      rw [Function.update_self] at hz
      cases hz
      exact Function.update_self ..
    · rw [Function.update_of_ne same] at hz
      refine (Function.update_of_ne same ..).trans (grasps.temps i z ?_)
      rw [Function.update_of_ne same]
      exact hz

theorem grasps_writeTemp (temp : Nat) (x : Option File) (file : File) :
    (aging keys watched).Triple t (Grasps t key time (Function.update temps temp (some x)))
      (call (.writeTemp temp file))
      (Post (fun _ => Grasps t key time (Function.update temps temp (some (some file))))
        fun _ w => ∃ left, Grasps t key time (Function.update temps temp (some left)) w) := by
  refine triple_perform grasps_stable (fun _ _ _ _ => trivial) ?_
  rintro w r w' aged grasps _ (⟨e, left, rfl, rfl⟩ | ⟨rfl, rfl⟩)
  · obtain ⟨keeps, grasps⟩ := grasps_setTemp left aged grasps
    exact ⟨keeps, left, grasps⟩
  · exact grasps_setTemp (some file) aged grasps

/-- The thread gives up a temporary file. -/
theorem grasps_dropTemp {temp : Nat} {x : Option File} {w : World} (unknown : temps temp = none)
    (aged : Aged keys watched w) (grasps : Grasps t key time (Function.update temps temp (some x)) w) :
    (aging keys watched).Keeps t w (w.setTemp temp none) ∧
      Grasps t key time temps (w.setTemp temp none) := by
  have own := grasps.temps temp x (Function.update_self ..)
  refine ⟨⟨⟨aged.dated, aged.past⟩, fun u other => ⟨fun _ => rfl, fun _ _ _ h => h,
    fun i z hz => ?_, rfl⟩⟩, grasps.held, grasps.seen, fun i z hz => ?_⟩
  · have apart : i ≠ temp := by
      rintro rfl
      exact other (congrArg Prod.fst (Option.some.inj (hz.symm.trans own)))
    exact (Function.update_of_ne apart ..).trans hz
  · have apart : i ≠ temp := by
      rintro rfl
      exact nomatch unknown.symm.trans hz
    refine (Function.update_of_ne apart ..).trans (grasps.temps i z ?_)
    rw [Function.update_of_ne apart]
    exact hz

theorem grasps_unlinkTemp {temp : Nat} (unknown : temps temp = none) :
    (aging keys watched).Triple t
      (fun w => ∃ x, Grasps t key time (Function.update temps temp (some x)) w)
      (call (.unlinkTemp temp)) fun _ _ => True := by
  refine triple_exists fun x => triple_perform grasps_stable (fun _ _ _ _ => trivial) ?_
  rintro w r w' aged grasps _ (⟨e, rfl, rfl⟩ | ⟨rfl, rfl⟩)
  · exact ⟨keeps_frame aged (frame_refl t _), trivial⟩
  · exact ⟨(grasps_dropTemp unknown aged grasps).1, trivial⟩

theorem put_other {w : World} {path path' : Path} {file : File} (apart : path' ≠ path) :
    (w.put path file).files path' = w.files path' :=
  Function.update_of_ne apart ..

/-- A temporary file of the thread takes its place: no meta file, or one that records a time
after which nothing had been returned. -/
theorem grasps_replace {temp : Nat} {file : File} {path : Path} (unknown : temps temp = none)
    (records : ∀ key' ∈ keys, path = metaPath key' → key' = key ∧ ∃ document now,
      file = .json document ∧ accessedAt document = .ok now ∧ time = some now) :
    (aging keys watched).Triple t
      (Grasps t key time (Function.update temps temp (some (some file)))) (call (.replace temp path))
      (Post (fun _ => Grasps t key time temps)
        fun _ w => ∃ x, Grasps t key time (Function.update temps temp (some x)) w) := by
  refine triple_perform grasps_stable (fun _ _ _ _ => trivial) ?_
  rintro w r w' aged grasps _ (⟨e, rfl, rfl⟩ | ⟨owner, f, there, rfl, rfl⟩)
  · exact ⟨keeps_frame aged (frame_refl t _), _, grasps⟩
  have own := grasps.temps temp _ (Function.update_self ..)
  obtain rfl : f = file := by
    rw [own] at there
    exact (Option.some.inj (congrArg Prod.snd (Option.some.inj there))).symm
  obtain ⟨⟨aged', rely⟩, grasps'⟩ := grasps_dropTemp unknown aged grasps
  refine ⟨⟨⟨fun key' mem g hg => ?_, aged.past⟩, fun u other => ?_⟩,
    ⟨grasps'.held, grasps'.seen, grasps'.temps⟩⟩
  · by_cases same : metaPath key' = path
    · obtain ⟨rfl, document, now, rfl, dated, taken⟩ := records key' mem same.symm
      rw [same, put_self] at hg
      cases hg
      exact ⟨document, now, rfl, dated, fun _ => grasps.seen now taken⟩
    · exact aged.dated key' mem g ((put_other same).symm.trans hg)
  · exact ⟨(rely u other).depth, (rely u other).returned, (rely u other).temps,
      (rely u other).before⟩

/-- The program is safe from `P` on; what holds when it ends is not used. -/
def Ages (keys watched : Set Key) (t : Nat) (P : World → Prop) (p : Caching α) : Prop :=
  (aging keys watched).Triple t P p fun _ _ => True

variable {β : Type} {R : β → World → Prop}

theorem ages_ret {a : α} : Ages keys watched t P (.ret a) := triple_ret fun _ _ _ => trivial

theorem ages_raise {e : Exc} : Ages keys watched t P (.raise e : Caching α) := triple_raise fun _ _ _ => trivial

theorem ages_ite {c : Prop} [Decidable c] {p q : Caching α} (hp : c → Ages keys watched t P p)
    (hq : ¬ c → Ages keys watched t P q) : Ages keys watched t P (if c then p else q) :=
  triple_ite hp hq

theorem ages_bind {p : Caching β} {f : β → Caching α}
    (hp : (aging keys watched).Triple t P p (Post R fun _ _ => True))
    (hf : ∀ b, Ages keys watched t (R b) (f b)) : Ages keys watched t P (p >>= f) :=
  triple_bind hp hf

/-- A step that keeps what is known. -/
theorem ages_step {p : Caching β} {f : β → Caching α}
    (hp : (aging keys watched).Triple t P p fun _ => P) (hf : ∀ b, Ages keys watched t P (f b)) :
    Ages keys watched t P (p >>= f) := by
  refine triple_bind (R := fun _ => P) (triple_post hp ?_) hf
  rintro (e | b) w _ h
  · exact trivial
  · exact h

theorem ages_lift {x : Except Exc β} {f : β → Caching α}
    (hf : ∀ b, x = .ok b → Ages keys watched t P (f b)) : Ages keys watched t P (liftM x >>= f) := by
  cases x with
  | ok b => exact hf b rfl
  | error e => exact ages_raise

theorem ages_then {p : Caching β} {f : β → Caching α} (hp : Ages keys watched t P p)
    (hf : ∀ b, Ages keys watched t (fun _ => True) (f b)) : Ages keys watched t P (p >>= f) := by
  refine triple_bind (R := fun _ _ => True) (triple_post hp ?_) hf
  rintro (e | b) w _ _ <;> exact trivial

/-- What is known after an exception is not used. -/
theorem drops {E : Exc → World → Prop} (r : Except Exc β) (w : World)
    (_ : (aging keys watched).inv w) (h : Post R E r w) : Post R (fun _ _ => True) r w := by
  cases r with
  | ok b => exact h
  | error e => exact trivial

theorem ages_forget {p : Caching α} (hp : Ages keys watched t (fun _ => True) p) :
    Ages keys watched t P p :=
  triple_pre hp fun _ _ _ => trivial

theorem ages_quiet {p : Caching β} {f : β → Caching α} (made : p.Calls Quiet)
    (hf : ∀ b, Ages keys watched t (Grasps t key time temps) (f b)) :
    Ages keys watched t (Grasps t key time temps) (p >>= f) :=
  ages_step (triple_quiet made grasps_stable) hf

end Rules

/-! ### Writing -/

section Writing

variable {keys watched : Set Key} {t : Nat} {key : Key} (plain : ∀ key ∈ keys, Plain key)
  (mem : key ∈ keys)

/-- No temporary file is known. -/
def noTemps : Nat → Option (Option File) := fun _ => none

include plain mem

theorem ages_writeMeta {document : Value} {now : ℚ} (dated : accessedAt document = .ok now) :
    Ages keys watched t (Grasps t key (some now) noTemps) (writeMeta (metaPath key) document) := by
  refine triple_bind (grasps_newTemp (metaPath key)) fun tmp => triple_pure fun unknown => ?_
  refine triple_tryCatch
    (E := fun _ w => ∃ x, Grasps t key (some now) (Function.update noTemps tmp (some x)) w) ?_ ?_
  · refine triple_step (R := fun _ => Grasps t key (some now) (Function.update noTemps tmp (some none)))
      (E := fun _ => Grasps t key (some now) (Function.update noTemps tmp (some none)))
      (triple_post (grasps_mkdirParent _) ?_) (fun _ _ h => ⟨none, h⟩) fun _ => ?_
    · rintro (e | a) w _ h <;> exact h
    refine triple_bind (grasps_writeTemp tmp none _) fun _ => ?_
    refine triple_post (grasps_replace unknown ?_) ?_
    · intro key' mem' same
      have own := (plain key mem).owner (plain key' mem') (.inr rfl) (.inr same)
      exact ⟨own, document, now, rfl, dated, rfl⟩
    · rintro (e | a) w _ h
      · exact h
      · exact trivial
  · intro e
    refine triple_ite (fun _ => ?_) fun _ => triple_raise fun _ _ _ => trivial
    refine triple_tryCatch (E := fun _ _ => True) (triple_post (grasps_unlinkTemp unknown) ?_) ?_
    · rintro (e | a) w _ h <;> exact trivial
    · exact fun e => triple_ite (fun _ => triple_ret fun _ _ _ => trivial)
        fun _ => triple_raise fun _ _ _ => trivial

theorem ages_touchMeta :
    Ages keys watched t (Grasps t key none noTemps) (touchMeta (metaPath key)) := by
  refine ages_quiet (calls_readMeta trivial) fun document => ?_
  split
  · exact ages_ret
  · refine ages_bind grasps_now fun now => ages_lift fun _ _ => ages_lift fun accessed _ => ?_
    refine ages_ite (fun _ => ages_ret) fun _ => ages_lift fun document' updated => ?_
    exact ages_writeMeta plain mem (accessedAt_setItem updated)

theorem ages_updateMeta {validated now : ℚ} :
    Ages keys watched t (Grasps t key (some now) noTemps) (updateMeta (metaPath key)
      [("last_validated_at", .float validated), ("last_accessed_at", .float now)]) := by
  refine ages_quiet (calls_readMeta trivial) fun document => ?_
  split
  · exact ages_ret
  · exact ages_lift fun document' updated => ages_writeMeta plain mem (accessedAt_update updated)

/-- Both files of an entry are written; the record is made under the lock. -/
theorem ages_storeFiles (content : Bytes) (sha256 etag objectName : String) :
    Ages keys watched t (Grasps t key none noTemps)
      (storeFiles key content sha256 etag objectName) := by
  refine ages_step (grasps_mkdirParent _) fun _ => ?_
  refine ages_bind (grasps_newTemp _) fun tmpData => triple_pure fun unknown => ?_
  refine ages_bind (grasps_newTemp _) fun tmpMeta => triple_pure fun unused => ?_
  refine ages_bind grasps_now fun now => ?_
  have apart : tmpMeta ≠ tmpData := by
    rintro rfl
    rw [Function.update_self] at unused
    exact nomatch unused
  rw [Function.update_comm apart.symm]
  have unknown' : Function.update noTemps tmpMeta (some none) tmpData = none :=
    (Function.update_of_ne apart.symm ..).trans unknown
  refine ages_bind (triple_post (grasps_writeTemp tmpData none _) drops) fun _ => ?_
  refine ages_bind (triple_post (grasps_replace unknown' ?_) drops) fun _ => ?_
  · intro key' mem' same
    obtain rfl := (plain key mem).owner (plain key' mem') (.inl rfl) (.inr same)
    exact absurd same (dataPath_ne_metaPath key')
  refine ages_bind (triple_post (grasps_writeTemp tmpMeta none _) drops) fun _ => ?_
  refine ages_bind (triple_post (grasps_replace rfl ?_) drops) fun _ => ages_ret
  intro key' mem' same
  have own := (plain key mem).owner (plain key' mem') (.inr rfl) (.inr same)
  exact ⟨own, _, now, rfl, rfl, rfl⟩

end Writing

/-! ### Locks and evictions -/

section Locks

variable {keys watched : Set Key} {t : Nat} {α : Type} {P : World → Prop}

/-- A block that returns a path: it is recorded as accessed now, or it is not watched. -/
theorem ages_release (key : Key) (outcome : Except Exc (Option Path)) :
    Ages keys watched t (fun _ => True) (call (.release key outcome)) := by
  refine triple_perform (fun _ _ _ _ => trivial) (fun _ _ _ _ => trivial) ?_
  intro w r w' aged _ punctual h
  refine ⟨?_, trivial⟩
  obtain ⟨held, -, rfl⟩ | ⟨-, -, rfl⟩ := h
  · match outcome, punctual with
    | .error e, _ => exact keeps_frame aged (frame_release held nofun)
    | .ok none, _ => exact keeps_frame aged (frame_release held nofun)
    | .ok (some path), punctual =>
        refine ⟨⟨fun key' mem file there => ?_, fun key' s mem => ?_⟩, fun u other => ?_⟩
        · obtain ⟨document, accessed, rfl, dated, recorded⟩ := aged.dated key' mem file there
          refine ⟨document, accessed, rfl, dated, fun watch s here => ?_⟩
          obtain new | old := List.mem_cons.mp here
          · cases new
            exact punctual watch document accessed there dated
          · exact recorded watch s old
        · obtain new | old := List.mem_cons.mp mem
          · cases new
            exact le_rfl
          · exact aged.past key' s old
        · refine ⟨depth_release_other held _ other, fun key' locked s mem => ?_, fun _ _ h => h, rfl⟩
          obtain new | old := List.mem_cons.mp mem
          · cases new
            rw [depth_exclusive held other] at locked
            exact absurd locked (lt_irrefl 0)
          · exact old
  · exact keeps_frame aged (frame_refl t _)

theorem ages_leaving {key : Key} {path : α → Option Path} {block : Caching α}
    (hblock : Ages keys watched t P block) : Ages keys watched t P (leaving key path block) := by
  refine ages_then (triple_attempt hblock) fun outcome => ?_
  refine ages_then (ages_release key _) fun _ => ?_
  exact triple_lift (fun _ _ _ _ _ => trivial) fun _ _ _ _ _ => trivial

theorem ages_withKeyLock {key : Key} {path : α → Option Path} {block : Caching α}
    (hblock : Ages keys watched t (Grasps t key none noTemps) block) :
    Ages keys watched t (fun _ => True) (withKeyLock key path block) := by
  refine ages_bind (R := fun _ => Grasps t key none noTemps) ?_ fun _ => ages_leaving hblock
  refine triple_perform (fun _ _ _ _ => trivial) (fun _ _ _ _ => trivial) ?_
  rintro w r w' aged _ _ ⟨free, rfl, rfl⟩
  refine ⟨keeps_frame aged (frame_lock free), ?_, nofun, nofun⟩
  rw [depth_lock, if_pos rfl]
  exact Nat.succ_pos _

theorem mild_removeEntry (key : Key) : (removeEntry key).Calls Mild :=
  calls_removeEntry key (fun _ => trivial) fun _ => trivial

theorem mild_leaving {key : Key} {block : Caching α} (made : block.Calls Mild) :
    (leaving key (fun _ => none) block).Calls Mild := by
  refine Program.calls_bind (Program.calls_attempt made) fun outcome => ?_
  refine Program.calls_bind (Program.calls_perform ?_) fun _ => Program.calls_lift _
  cases outcome <;> exact trivial

/-- The candidates of an eviction were accessed before the grace period, as far as it knows. -/
def Judged (watched : Set Key) (t : Nat) (now : ℚ) (candidates : List Entry) (w : World) : Prop :=
  ∀ entry ∈ candidates, entry.key ∈ watched → ∀ s, (entry.key, s) ∈ w.before t →
    s + lruGracePeriod < now

theorem judged_stable {now : ℚ} {candidates : List Entry} :
    (aging keys watched).Stable t (Judged watched t now candidates) := by
  intro w w' judged rely
  rw [Judged, rely.before]
  exact judged

theorem judged_frame {now : ℚ} {candidates : List Entry} (w w' : World)
    (judged : Judged watched t now candidates w) (frame : Frame t w w') :
    Judged watched t now candidates w' := by
  rw [Judged, frame.before]
  exact judged

theorem judges_evictEntry {now freed : ℚ} {candidates : List Entry} {entry : Entry}
    (mem : entry ∈ candidates) :
    (aging keys watched).Triple t (Judged watched t now candidates) (evictEntry now freed entry)
      fun _ => Judged watched t now candidates := by
  refine triple_bind (R := fun _ => Judged watched t now candidates) ?_ fun acquired => ?_
  · refine triple_perform judged_stable (fun w _ judged _ => judged entry mem) ?_
    rintro w r w' aged judged _ (⟨free, rfl, rfl⟩ | ⟨-, rfl, rfl⟩)
    · exact ⟨keeps_frame aged (frame_lock free), judged⟩
    · exact ⟨keeps_frame aged (frame_refl t _), judged⟩
  · refine triple_ite (fun _ => ?_) fun _ => triple_ret fun _ _ h => h
    refine triple_mild (mild_leaving ?_) judged_stable judged_frame
    exact Program.calls_bind (mild_removeEntry _) fun _ =>
      Program.calls_bind (Program.calls_lift _) fun _ => trivial

theorem ages_evictCandidates (needBytes : Int) {now freed : ℚ} {candidates : List Entry} :
    Ages keys watched t (Judged watched t now candidates)
      (evictCandidates needBytes now freed candidates) := by
  induction candidates generalizing freed with
  | nil => exact ages_ret
  | cons entry candidates ih =>
      refine ages_ite (fun _ => ages_ret) fun _ => ?_
      refine ages_step (judges_evictEntry (List.mem_cons_self ..)) fun freed => ?_
      exact triple_pre ih fun w _ judged e mem => judged e (List.mem_cons_of_mem _ mem)

/-- What an eviction has read is still so when it takes its time: nothing had been returned
later. -/
theorem ages_evictionTime (sub : watched ⊆ keys) (entries : List Entry) (since : Option ℚ) :
    (aging keys watched).Triple t (fun _ => True) (call (.evictionTime entries since))
      (Post (fun (_ : ℚ) w => ∀ entry ∈ entries, entry.key ∈ watched → ∀ accessed,
        entry.lastAccessed.number = .ok accessed → ∀ s, (entry.key, s) ∈ w.before t → s ≤ accessed)
        fun _ _ => True) := by
  refine triple_perform (fun _ _ _ _ => trivial) (fun _ _ _ _ => trivial) ?_
  rintro w _ _ aged _ punctual ⟨rfl, rfl⟩
  refine ⟨⟨⟨aged.dated, aged.past⟩, fun u other =>
    ⟨fun _ => rfl, fun _ _ _ h => h, fun _ _ h => h, Function.update_of_ne other ..⟩⟩, ?_⟩
  intro entry mem watch accessed hnumber s returned
  obtain ⟨document, there, hget⟩ := punctual entry mem watch
  obtain ⟨_, accessed', ⟨⟩, dated, recorded⟩ := aged.dated _ (sub watch) _ there
  rw [accessedAt, hget] at dated
  obtain rfl : accessed = accessed' := Except.ok.inj (hnumber.symm.trans dated)
  change (entry.key, s) ∈ Function.update w.before t w.returned t at returned
  rw [Function.update_self] at returned
  exact recorded watch s returned

theorem ages_evictLru (sub : watched ⊆ keys) (needBytes : Int) (since : Option ℚ) :
    Ages keys watched t (fun _ => True) (evictLru needBytes since) := by
  have looks : collectStats.Calls Quiet := calls_collectStats trivial trivial fun _ => trivial
  refine ages_step (triple_quiet looks fun _ _ _ _ => trivial) fun entries => ?_
  refine ages_bind (ages_evictionTime sub entries since) fun now => ?_
  refine ages_lift fun candidates sorted => triple_pre (ages_evictCandidates needBytes) ?_
  intro w _ spared entry mem watch s returned
  obtain ⟨found, accessed, hnumber, old⟩ := evictionCandidates_old sorted entry mem
  have recorded := spared entry found watch accessed hnumber s returned
  linarith

theorem ages_evictLruIfNeeded (sub : watched ⊆ keys) (settings : Settings) (newSize : Int)
    (since : Option ℚ) :
    Ages keys watched t (fun _ => True) (evictLruIfNeeded settings newSize since) := by
  have looks : calculateTotalSize.Calls Quiet :=
    calls_calculateTotalSize trivial trivial fun _ => trivial
  refine ages_step (triple_quiet looks fun _ _ _ _ => trivial) fun total => ?_
  exact ages_ite (fun _ => ages_ret) fun _ => ages_evictLru sub _ since

end Locks

/-! ### Requests -/

section Requests

variable {keys watched : Set Key} {t : Nat} (settings : Settings) {key : Key}

section Resolving

variable (plain : ∀ key ∈ keys, Plain key) (sub : watched ⊆ keys) (mem : key ∈ keys)

include plain sub mem

theorem ages_store (content : Bytes) (sha256 etag objectName : String) :
    Ages keys watched t (fun _ => True) (store settings key content sha256 etag objectName) :=
  ages_then (ages_withKeyLock (ages_storeFiles plain mem content sha256 etag objectName))
    fun now => ages_evictLruIfNeeded sub settings 0 (some now)

omit sub in
theorem ages_hit : Ages keys watched t (Grasps t key none noTemps) (hit key) :=
  ages_then (ages_touchMeta plain mem) fun _ => ages_ret

omit sub in
theorem ages_remoteGone (sha256 : String) :
    Ages keys watched t (Grasps t key none noTemps) (remoteGone sha256 key) := by
  refine ages_quiet (Program.calls_ite (fun _ => Program.calls_perform trivial) fun _ => trivial)
    fun kept => ?_
  refine ages_ite (fun _ => ages_hit plain mem) fun _ => ?_
  refine ages_quiet (Program.calls_perform trivial) fun found => ages_ite (fun _ => ?_)
    fun _ => ages_ret
  exact ages_then (ages_forget (triple_any (mild_removeEntry key))) fun _ => ages_ret

omit sub in
theorem ages_isCurrent (remoteEtag : String) :
    Ages keys watched t (Grasps t key none noTemps) (isCurrent key remoteEtag) := by
  refine ages_quiet (Program.calls_perform trivial) fun found => ages_ite (fun _ => ?_)
    fun _ => ages_ret
  refine ages_quiet (calls_readMeta trivial) fun document => ages_lift fun same _ => ?_
  refine ages_ite (fun _ => ?_) fun _ => ?_
  · refine ages_bind grasps_now fun validated => ages_bind grasps_now fun accessed => ?_
    exact ages_then (ages_updateMeta plain mem) fun _ => ages_ret
  · exact ages_then (ages_forget (triple_any (mild_removeEntry key))) fun _ => ages_ret

theorem ages_downloadAndStore (objectName sha256 remoteEtag : String) :
    Ages keys watched t (fun _ => True)
      (downloadAndStore settings objectName sha256 key remoteEtag) := by
  refine ages_then (triple_any (Program.calls_perform trivial)) fun content => ?_
  refine ages_lift fun digest _ => ?_
  exact ages_then (ages_store settings plain sub mem content digest remoteEtag objectName)
    fun _ => ages_ret

theorem ages_resolveLocked (objectName sha256 : String) :
    Ages keys watched t (Grasps t key none noTemps)
      (resolveLocked settings objectName sha256 key) := by
  refine ages_quiet (Program.calls_ite (fun _ => Program.calls_perform trivial)
    fun _ => calls_isFresh key trivial trivial trivial) fun trusted => ?_
  refine ages_ite (fun _ => ages_hit plain mem) fun _ => ?_
  refine ages_quiet (Program.calls_perform trivial) fun _ => ?_
  refine ages_quiet (Program.calls_tryCatch (Program.calls_perform trivial) fun _ => trivial)
    fun head => ?_
  cases head with
  | none => exact ages_remoteGone plain mem sha256
  | some remoteEtag =>
      refine ages_then (ages_isCurrent plain mem remoteEtag) fun current => ?_
      exact ages_ite (fun _ => ages_ret) fun _ =>
        ages_downloadAndStore settings plain sub mem objectName sha256 remoteEtag

end Resolving

theorem mild_purgeFile (now : ℚ) (path : Path) : (purgeFile settings now path).Calls Mild := by
  refine Program.calls_tryCatch ?_ fun _ => trivial
  refine Program.calls_bind (Program.calls_perform trivial) fun document =>
    Program.calls_bind (Program.calls_lift _) fun _ =>
    Program.calls_bind (Program.calls_lift _) fun accessed => Program.calls_ite (fun _ => ?_)
      fun _ => trivial
  split
  · refine Program.calls_ite (fun _ => ?_) fun _ => trivial
    refine Program.calls_bind (Program.calls_perform trivial) fun acquired => ?_
    exact Program.calls_ite (fun _ => mild_leaving (mild_removeEntry _)) fun _ => trivial
  · exact trivial

theorem mild_purgeExpired : (purgeExpired settings).Calls Mild := by
  refine Program.calls_ite (fun _ => ?_) fun _ => trivial
  refine Program.calls_bind (Program.calls_perform trivial) fun _ =>
    Program.calls_bind (Program.calls_perform trivial) fun found => ?_
  refine Program.calls_ite (fun _ => ?_) fun _ => trivial
  exact Program.calls_bind (Program.calls_perform trivial) fun now =>
    Program.calls_bind (Program.calls_perform trivial) fun paths =>
    Program.calls_foldlM (fun _ path => mild_purgeFile settings now path) _ _

theorem ages_request (plain : ∀ key ∈ keys, Plain key) (sub : watched ⊆ keys) {r : Request}
    (names : r.Names keys) : Ages keys watched t (fun _ => True) (r.program settings) := by
  cases r with
  | resolve objectName sha256 =>
      refine ages_then (ages_ite (fun _ => ?_) fun _ => triple_any (Program.calls_perform trivial))
        fun _ => ages_ret
      refine ages_then (triple_any (Program.calls_perform trivial)) fun _ => ?_
      exact ages_withKeyLock (ages_resolveLocked settings plain sub names objectName sha256)
  | invalidate objectName sha256 =>
      refine triple_any (Program.calls_ite (fun _ => ?_) fun _ => trivial)
      exact Program.calls_bind (Program.calls_perform trivial) fun _ =>
        mild_leaving (mild_removeEntry _)
  | purge => exact triple_any (mild_purgeExpired settings)
  | evict needBytes => exact ages_evictLru sub needBytes none
  | store key content sha256 etag objectName =>
      exact ages_store settings plain sub names content sha256 etag objectName

end Requests

/-! ### Runs -/

/-- The pools of the runs with requests about some keys, in which the record of each watched
entry is up to date whenever its path is returned and whenever an eviction takes its time. -/
def PunctualRuns (settings : Settings) (keys watched : Set Key) (clock : ℚ)
    (c : Pool CacheCalls Exc World) : Prop :=
  Pool.Reachable disk (fun p => ∃ r : Request, r.Names keys ∧ p = r.program settings)
    (Punctual watched) (World.start clock) c

theorem sound_of_punctualRuns {settings : Settings} {keys watched : Set Key} {clock : ℚ}
    {c : Pool CacheCalls Exc World} (run : PunctualRuns settings keys watched clock c)
    (plain : ∀ key ∈ keys, Plain key) (sub : watched ⊆ keys) :
    (aging keys watched).Sound c := by
  have empty : Aged keys watched (World.start clock) :=
    ⟨fun _ _ _ there => (nomatch there), fun _ _ mem => absurd mem List.not_mem_nil⟩
  refine reachable_sound (d := aging keys watched) ?_ empty (fun _ => trivial) run
  rintro _ ⟨r, names, rfl⟩ t
  exact ages_request settings plain sub names

/-- In every run every meta file of a plain key records an access time. -/
theorem dated_of_runs {settings : Settings} {keys : Set Key} {clock : ℚ}
    {c : Pool CacheCalls Exc World} (run : Runs settings keys clock c)
    (plain : ∀ key ∈ keys, Plain key) {key : Key} (mem : key ∈ keys) {file : File}
    (there : c.state.files (metaPath key) = some file) :
    ∃ document accessed, file = .json document ∧ accessedAt document = .ok accessed := by
  have unwatched : PunctualRuns settings keys ∅ clock c := by
    refine steps_mono (fun _ h => h) (fun t op w _ => ?_) run
    cases op with
    | release key outcome =>
        match outcome with
        | .error _ | .ok none => exact trivial
        | .ok (some path) => exact fun impossible => impossible.elim
    | evictionTime entries since => exact fun _ _ impossible => impossible.elim
    | _ => exact trivial
  obtain ⟨document, accessed, rfl, dated, -⟩ :=
    (sound_of_punctualRuns unwatched plain (Set.empty_subset _)).inv.dated key mem file there
  exact ⟨document, accessed, rfl, dated⟩

/-- Entries expire after a minute. -/
def shortLived : Settings := ⟨true, 100, 60, fun _ => ""⟩

/-- An object that is there. -/
def besideObject (objectName : String) : Surroundings :=
  ⟨[dataPath ("name:" ++ objectName), metaPath ("name:" ++ objectName)], fun _ => [1], "x"⟩

/-- The keys of the object `a`. -/
abbrev keysOfA : Set Key := objectKeys {("", "a")}

end AcojWorker.FileCache
