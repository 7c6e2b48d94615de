import AcojWorker.Cache.RemoteStorage

/-!
# What a thread knows beside the remote storage

A thread that has locked a key knows that its data file stays, unless it is removed, and what it
has learnt of the past of an object. Locks that it takes and gives back in between, for an
eviction, change nothing of this.
-/

namespace AcojWorker.FileCache.Mirror

open Python Effect Discipline

/-! ### What calls leave alone -/

section Calls

variable {keys : Set Key} {etag : Bytes → String} {t : Nat} {s s' : Site} {w w' : World}

/-- What a call that replaces no file leaves as it is on the disk. -/
structure Spares (t : Nat) (w w' : World) : Prop where
  files : ∀ path file, w'.files path = some file → w.files path = some file
  clock : w'.clock = w.clock
  depth : ∀ u, u ≠ t → ∀ key, w'.depth u key = w.depth u key
  temps : ∀ u, u ≠ t → ∀ temp x, w.temps temp = some (u, x) → w'.temps temp = some (u, x)

theorem spares_refl (t : Nat) (w : World) : Spares t w w where
  files _ _ h := h
  clock := rfl
  depth _ _ _ := rfl
  temps _ _ _ _ h := h

theorem spares_frame (frame : Frame t w w') : Spares t w w' where
  files := frame.files
  clock := frame.clock
  depth := frame.depth
  temps _ _ temp _ h := frame.temps temp _ h

/-- A call that neither writes nor replaces a file. -/
def Tame : CacheOp → Prop
  | .writeTemp .. | .replace .. | .unlinkTemp _ => False
  | _ => True

theorem spares_exec {op : CacheOp} {r : Except Exc op.Answer} (tame : Tame op)
    (h : exec t op w r w') : Spares t w w' := by
  cases op with
  | tryAcquire key evicting =>
      obtain ⟨free, -, rfl⟩ | ⟨-, -, rfl⟩ := h
      · exact spares_frame (frame_lock free)
      · exact spares_refl ..
  | release key outcome =>
      obtain ⟨held, -, rfl⟩ | ⟨-, -, rfl⟩ := h
      · exact { spares_refl t w with
          files := fun _ _ h => h
          depth := fun _ other => depth_release_other held outcome other }
      · exact spares_refl ..
  | evictionTime =>
      obtain ⟨-, rfl⟩ := h
      exact { spares_refl t w with files := fun _ _ h => h }
  | writeTemp | replace | unlinkTemp => exact tame.elim
  | _ => exact spares_frame (frame_exec (by exact trivial) h)

/-- A temporary file of the thread changes or goes. -/
theorem spares_setTemp {temp : Nat} {x : Option File} (own : w.temps temp = some (t, x))
    (y : Option (Nat × Option File)) : Spares t w (w.setTemp temp y) := by
  refine { spares_refl t w with files := fun _ _ h => h, temps := fun u other i z hz => ?_ }
  have apart : i ≠ temp := by
    rintro rfl
    exact other (congrArg Prod.fst (Option.some.inj (hz.symm.trans own)))
  exact (Function.update_of_ne apart ..).trans hz

theorem keeps_spared (inv : Mirrored keys etag s) (spares : Spares t s.world s'.world)
    (remembers : Remembers t s s') : (mirroring keys etag).Keeps t s s' := by
  refine ⟨⟨fun o c h => ?_, fun o c m h => ?_, fun u => ?_, fun key mem file there => ?_,
    fun key mem => (inv.paired key mem).later spares.files ?_⟩, fun u other => ?_⟩
  · rw [remembers.had, spares.clock]
    exact inv.current o c (remembers.objects ▸ h)
  · rw [spares.clock]
    exact inv.past o c m (remembers.had ▸ h)
  · rw [spares.clock]
    by_cases same : u = t
    · rcases remembers.begun with before | now
      · rw [same, before]
        exact inv.begun t
      · rw [same, now]
    · rw [remembers.began u same]
      exact inv.begun u
  · exact inv.contents key mem file (spares.files _ file there)
  · intro o c m h
    rw [remembers.had]
    exact h
  · refine ⟨spares.depth u other, fun key _ _ file => spares.files _ file, spares.temps u other,
      remembers.told u other, remembers.began u other, fun o c m h => ?_⟩
    rw [remembers.had]
    exact h

theorem keeps_exec (op : CacheOp) {r : Except Exc op.Answer} (inv : Mirrored keys etag s)
    (tame : Tame op) (h : Site.exec etag t op s r s') : (mirroring keys etag).Keeps t s s' :=
  keeps_spared inv (spares_exec tame (exec_world h)) (remembers_exec h)

theorem keeps_withWorld (inv : Mirrored keys etag s) (spares : Spares t s.world w) :
    (mirroring keys etag).Keeps t s (s.withWorld w) :=
  keeps_spared inv spares (remembers_withWorld t s w)

theorem owns_apart (own : OwnFiles keys) {key key' : Key} (mem : key ∈ keys) (mem' : key' ∈ keys)
    (other : key' ≠ key) {path path' : Path} (owns : Owns key path) (owns' : Owns key' path') :
    path' ≠ path := by
  rintro rfl
  exact other (own key mem key' mem' path' owns owns')

/-- A file of a key that the thread has locked takes its place. -/
theorem keeps_takesPlace (own : OwnFiles keys) (inv : Mirrored keys etag s) {key : Key}
    (mem : key ∈ keys) (held : 0 < s.world.depth t key) {temp : Nat} {x : Option File}
    (mine : s.world.temps temp = some (t, x)) {path : Path} (owns : Owns key path) (file : File)
    (contents : path = dataPath key → ∃ content, file = .data content)
    (paired : Paired etag key (s.withWorld ((s.world.setTemp temp none).put path file))) :
    (mirroring keys etag).Keeps t s (s.withWorld ((s.world.setTemp temp none).put path file)) := by
  have spares := spares_setTemp mine none
  have elsewhere : ∀ key' ∈ keys, key' ≠ key → ∀ path', Owns key' path' →
      ((s.world.setTemp temp none).put path file).files path' = s.world.files path' :=
    fun key' mem' other path' owns' => put_other (owns_apart own mem mem' other owns owns')
  refine ⟨⟨inv.current, inv.past, inv.begun, fun key' mem' file' there => ?_,
    fun key' mem' => ?_⟩, fun u other => ⟨fun _ => rfl, fun key' mem' locked file' there => ?_,
      spares.temps u other, rfl, rfl, fun _ _ _ h => h⟩⟩
  · by_cases here : dataPath key' = path
    · obtain rfl : key' = key := own key mem key' mem' path owns (.inl here.symm)
      change ((s.world.setTemp temp none).put path file).files (dataPath key') = _ at there
      rw [here, put_self] at there
      cases there
      exact contents here.symm
    · exact inv.contents key' mem' file' ((put_other here).symm.trans there)
  · by_cases same : key' = key
    · exact same ▸ paired
    · intro file' there
      obtain ⟨document, rfl, describes⟩ := inv.paired key' mem' file'
        ((elsewhere key' mem' same _ (.inr rfl)).symm.trans there)
      refine ⟨document, rfl, fun o named content data => ?_⟩
      exact describes o named content ((elsewhere key' mem' same _ (.inl rfl)).symm.trans data)
  · have apart : key' ≠ key := by
      rintro rfl
      rw [depth_exclusive held other] at locked
      exact absurd locked (lt_irrefl 0)
    exact (elsewhere key' mem' apart _ (.inl rfl)).symm.trans there

end Calls

/-! ### Knowledge -/

/-- What a thread leaves as it is while it only removes files. -/
structure Gentle (t : Nat) (s s' : Site) : Prop where
  files : ∀ path file, s'.world.files path = some file → s.world.files path = some file
  temps : ∀ temp x, s.world.temps temp = some (t, x) → s'.world.temps temp = some (t, x)
  told : s'.told t = s.told t
  began : s'.began t = s.began t
  had : s'.had = s.had

/-- What neither the others nor the removal of files spoil, while a thread has taken locks. -/
structure Robust (keys : Set Key) (t : Nat) (κ : Key → Nat) (J : Site → Prop) : Prop where
  stable : ∀ s s', (∀ key, κ key ≤ s.world.depth t key) → J s → Untouched keys t s s' → J s'
  gentle : ∀ s s', J s → Gentle t s s' → J s'

/-- The locks of a thread, as often as it has taken them at least, and what it knows. -/
structure Under (t : Nat) (κ : Key → Nat) (J : Site → Prop) (s : Site) : Prop where
  depth : ∀ key, κ key ≤ s.world.depth t key
  knows : J s

/-- No lock. -/
def noLock : Key → Nat := fun _ => 0

/-- One more lock. -/
def relock (κ : Key → Nat) (key : Key) : Key → Nat := Function.update κ key (κ key + 1)

theorem relock_self (κ : Key → Nat) (key : Key) : relock κ key key = κ key + 1 :=
  Function.update_self ..

theorem relock_other {κ : Key → Nat} {key k : Key} (other : k ≠ key) : relock κ key k = κ k :=
  Function.update_of_ne other ..

theorem le_relock (κ : Key → Nat) (key k : Key) : κ k ≤ relock κ key k := by
  by_cases same : k = key
  · rw [same, relock_self]
    exact Nat.le_succ _
  · exact (relock_other same).ge

theorem depth_relock {κ : Key → Nat} {key : Key} {t : Nat} {w : World}
    (depth : ∀ k, κ k ≤ w.depth t k) (k : Key) : relock κ key k ≤ (w.lock t key).depth t k := by
  rw [depth_lock]
  by_cases same : k = key
  · rw [if_pos same, same, relock_self]
    exact Nat.succ_le_succ (depth key)
  · rw [if_neg same, relock_other same]
    exact depth k

theorem depth_unlock {κ : Key → Nat} {key : Key} {t : Nat} {w : World}
    (depth : ∀ k, relock κ key k ≤ w.depth t k) (outcome : Except Exc (Option Path)) (k : Key) :
    κ k ≤ (w.release t key outcome).depth t k := by
  have more : κ key + 1 ≤ w.depth t key := relock_self κ key ▸ depth key
  rw [depth_release (Nat.lt_of_lt_of_le (Nat.succ_pos _) more)]
  by_cases same : k = key
  · rw [if_pos same, same]
    omega
  · rw [if_neg same]
    exact (relock_other same).ge.trans (depth k)

section Knowledge

variable {keys : Set Key} {etag : Bytes → String} {t : Nat} {κ : Key → Nat} {J : Site → Prop}

theorem robust_true : Robust keys t κ fun _ => True := ⟨fun _ _ _ _ _ => trivial, fun _ _ _ _ => trivial⟩

theorem Robust.relock (robust : Robust keys t κ J) (key : Key) : Robust keys t (relock κ key) J where
  stable s s' held := robust.stable s s' fun k => (le_relock κ key k).trans (held k)
  gentle := robust.gentle

theorem under_stable (robust : Robust keys t κ J) :
    (mirroring keys etag).Stable t (Under t κ J) := by
  rintro s s' ⟨depth, knows⟩ rely
  refine ⟨fun key => ?_, robust.stable s s' depth knows rely⟩
  rw [rely.depth]
  exact depth key

end Knowledge

/-! ### Rules -/

section Rules

variable {keys : Set Key} {etag : Bytes → String} {t : Nat} {κ : Key → Nat} {J : Site → Prop}
  {α : Type} {s s' : Site}

/-- A call that removes files at most. -/
def Meek : CacheOp → Prop
  | .rootExists | .pathExists _ | .loadJson _ | .metaFiles | .evictionTime .. | .getStorage
  | .download _ | .downloadDirect _ | .mkdirParent _ | .tempSibling _ | .unlink _ => True
  | _ => False

theorem tame_of_meek {op : CacheOp} (meek : Meek op) : Tame op := by
  cases op with
  | writeTemp | replace | unlinkTemp => exact meek.elim
  | _ => exact trivial

theorem gentle_withWorld {w : World}
    (files : ∀ path file, w.files path = some file → s.world.files path = some file)
    (temps : ∀ temp x, s.world.temps temp = some (t, x) → w.temps temp = some (t, x)) :
    Gentle t s (s.withWorld w) :=
  ⟨files, temps, rfl, rfl, rfl⟩

theorem gentle_exec {op : CacheOp} {r : Except Exc op.Answer} (meek : Meek op)
    (h : Site.exec etag t op s r s') : Gentle t s s' ∧ s'.world.locks = s.world.locks := by
  have same : Gentle t s (s.withWorld s.world) := gentle_withWorld (fun _ _ h => h) fun _ _ h => h
  cases op with
  | download =>
      rcases h with ⟨e, -, rfl⟩ | ⟨content, -, -, rfl⟩
      · exact ⟨same, rfl⟩
      · exact ⟨gentle_withWorld (fun _ _ h => h) fun _ _ h => h, rfl⟩
  | tempSibling path =>
      obtain ⟨_, ⟨temp, unused, -, rfl⟩, rfl⟩ := h
      refine ⟨gentle_withWorld (fun _ _ h => h) fun i x hx => ?_, rfl⟩
      have apart : i ≠ temp := by
        rintro rfl
        exact nomatch unused.symm.trans hx
      exact (Function.update_of_ne apart ..).trans hx
  | unlink path =>
      obtain ⟨_, ⟨e, -, rfl⟩ | ⟨-, rfl⟩, rfl⟩ := h
      · exact ⟨same, rfl⟩
      · exact ⟨gentle_withWorld (fun _ _ left => files_of_remove left) fun _ _ h => h, rfl⟩
  | mkdirParent path =>
      obtain ⟨_, rfl | rfl, rfl⟩ := h
      · exact ⟨same, rfl⟩
      · exact ⟨gentle_withWorld (fun _ _ h => h) fun _ _ h => h, rfl⟩
  | evictionTime =>
      obtain ⟨_, ⟨-, rfl⟩, rfl⟩ := h
      exact ⟨gentle_withWorld (fun _ _ h => h) fun _ _ h => h, rfl⟩
  | pathExists | loadJson | metaFiles =>
      obtain ⟨_, ⟨rfl, -⟩, rfl⟩ := h
      exact ⟨same, rfl⟩
  | rootExists | getStorage | downloadDirect =>
      obtain ⟨w, answers, rfl⟩ := h
      obtain rfl : w = s.world := answers
      exact ⟨same, rfl⟩
  | _ => exact meek.elim

theorem under_gentle (robust : Robust keys t κ J) (under : Under t κ J s)
    (gentle : Gentle t s s') (locks : s'.world.locks = s.world.locks) : Under t κ J s' := by
  refine ⟨fun key => ?_, robust.gentle s s' under.knows gentle⟩
  rw [World.depth, locks]
  exact under.depth key

theorem under_exec (op : CacheOp) {r : Except Exc op.Answer} (robust : Robust keys t κ J)
    (meek : Meek op) (inv : Mirrored keys etag s) (under : Under t κ J s)
    (h : Site.exec etag t op s r s') :
    (mirroring keys etag).Keeps t s s' ∧ Under t κ J s' := by
  obtain ⟨gentle, locks⟩ := gentle_exec meek h
  exact ⟨keeps_exec op inv (tame_of_meek meek) h, under_gentle robust under gentle locks⟩

/-- A program that removes files at most keeps what is known. -/
theorem triple_meek {p : Caching α} (made : p.Calls Meek) (robust : Robust keys t κ J) :
    (mirroring keys etag).Triple t (Under t κ J) p fun _ => Under t κ J := by
  refine triple_calls made (under_stable robust) (fun op s meek _ _ _ => ?_)
    fun op s r s' meek inv under _ h => under_exec op robust meek inv under h
  cases op with
  | release => exact meek.elim
  | _ => exact trivial

/-- A program of calls that are mild on the disk keeps the discipline. -/
theorem triple_mild {p : Caching α} (made : p.Calls Mild) :
    (mirroring keys etag).Triple t (fun _ => True) p fun _ _ => True := by
  refine triple_calls made (fun _ _ _ _ => trivial) (fun op s mild _ _ _ => ?_)
    fun op s r s' mild inv _ _ h =>
      ⟨keeps_spared inv (spares_frame (frame_exec mild (exec_world h))) (remembers_exec h), trivial⟩
  cases op with
  | release key outcome =>
      match outcome, mild with
      | .error _, _ | .ok none, _ => exact trivial
      | .ok (some path), mild => exact mild.elim
  | _ => exact trivial

/-- One more lock is taken. -/
theorem under_lock (robust : Robust keys t κ J) (inv : Mirrored keys etag s) (under : Under t κ J s)
    {key : Key} (free : s.world.free t key = true) :
    (mirroring keys etag).Keeps t s (s.withWorld (s.world.lock t key)) ∧
      Under t (relock κ key) J (s.withWorld (s.world.lock t key)) := by
  refine ⟨keeps_withWorld inv (spares_frame (frame_lock free)), depth_relock under.depth, ?_⟩
  exact robust.gentle s _ under.knows (gentle_withWorld (fun _ _ h => h) fun _ _ h => h)

theorem triple_acquire (robust : Robust keys t κ J) (key : Key) {E : Exc → Site → Prop} :
    (mirroring keys etag).Triple t (Under t κ J) (call (.acquire key))
      (Post (fun _ => Under t (relock κ key) J) E) := by
  refine triple_perform (under_stable robust) (fun _ _ _ _ => trivial) ?_
  rintro s r s' inv under _ ⟨_, ⟨free, rfl, rfl⟩, rfl⟩
  exact under_lock robust inv under free

theorem triple_tryAcquire (robust : Robust keys t κ J) (key : Key) (evicting : Option ℚ)
    {E : Exc → Site → Prop} :
    (mirroring keys etag).Triple t (Under t κ J) (call (.tryAcquire key evicting))
      (Post (fun (acquired : Bool) => if acquired then Under t (relock κ key) J else Under t κ J)
        E) := by
  refine triple_perform (under_stable robust) (fun _ _ _ _ => trivial) ?_
  rintro s r s' inv under _ ⟨_, ⟨free, rfl, rfl⟩ | ⟨-, rfl, rfl⟩, rfl⟩
  · exact under_lock robust inv under free
  · exact ⟨keeps_withWorld inv (spares_refl t _), under⟩

/-- A lock is given back; no path is returned. -/
theorem triple_release {key : Key} (robust : Robust keys t (relock κ key) J) {outcome : Except Exc (Option Path)}
    (pathless : ∀ path, outcome ≠ .ok (some path)) {E : Exc → Site → Prop} :
    (mirroring keys etag).Triple t (Under t (relock κ key) J) (call (.release key outcome))
      (Post (fun _ => Under t κ J) E) := by
  refine triple_perform (under_stable robust) (fun _ _ _ _ => ?_) ?_
  · match outcome, pathless with
    | .error _, _ | .ok none, _ => exact trivial
    | .ok (some path), pathless => exact absurd rfl (pathless path)
  rintro s r s' inv under _ ⟨_, answers, rfl⟩
  have held : 0 < s.world.depth t key :=
    Nat.lt_of_lt_of_le (Nat.succ_pos _) (relock_self κ key ▸ under.depth key)
  obtain ⟨-, rfl, rfl⟩ | ⟨none, -, -⟩ := answers
  · refine ⟨keeps_withWorld inv (@spares_exec t s.world _ (.release key outcome) (.ok ()) trivial
      (.inl ⟨held, rfl, rfl⟩)), depth_unlock under.depth outcome, ?_⟩
    exact robust.gentle s _ under.knows (gentle_withWorld (fun _ _ h => h) fun _ _ h => h)
  · rw [none] at held
    exact absurd held (lt_irrefl 0)

/-- A block that returns no path, under one more lock. -/
theorem triple_leaving {key : Key} {block : Caching α} {R : α → Site → Prop}
    (robust : ∀ a, Robust keys t (relock κ key) (R a))
    (hblock : (mirroring keys etag).Triple t (Under t (relock κ key) J) block
      (Post (fun a => Under t (relock κ key) (R a)) fun _ _ => True)) :
    (mirroring keys etag).Triple t (Under t (relock κ key) J) (leaving key (fun _ => none) block)
      (Post (fun a => Under t κ (R a)) fun _ _ => True) := by
  refine triple_bind (triple_attempt hblock) fun outcome => ?_
  cases outcome with
  | error e =>
      refine triple_bind (R := fun _ _ => True) (triple_post (triple_mild ?_) ?_) fun _ => ?_
      · exact Program.calls_perform trivial
      · rintro (e' | a) s _ _ <;> exact trivial
      · exact triple_raise fun _ _ _ => trivial
  | ok a =>
      have pathless : ∀ path, (.ok none : Except Exc (Option Path)) ≠ .ok (some path) := nofun
      refine triple_bind (R := fun _ => Under t κ (R a)) (triple_release (robust a) pathless) ?_
      exact fun _ => triple_ret fun _ _ h => h

/-- What is known after an exception is not used. -/
theorem mutes {P : Site → Prop} {p : Caching α} {R : α → Site → Prop} {E : Exc → Site → Prop}
    (hp : (mirroring keys etag).Triple t P p (Post R E)) :
    (mirroring keys etag).Triple t P p (Post R fun _ _ => True) := by
  refine triple_post hp ?_
  rintro (e | a) s _ h
  · exact trivial
  · exact h

/-- A step after which nothing is known. -/
theorem any_step {β : Type} {P : Site → Prop} {p : Caching β} {f : β → Caching α}
    (hp : (mirroring keys etag).Triple t P p fun _ _ => True)
    (hf : ∀ b, (mirroring keys etag).Triple t (fun _ => True) (f b) fun _ _ => True) :
    (mirroring keys etag).Triple t P (p >>= f) fun _ _ => True := by
  refine triple_bind (R := fun _ _ => True) (triple_post hp ?_) hf
  rintro (e | b) s _ _ <;> exact trivial

/-- A step of calls that remove files at most. -/
theorem meek_step {β : Type} {p : Caching β} {f : β → Caching α} {R : α → Site → Prop}
    (made : p.Calls Meek) (robust : Robust keys t κ J)
    (hf : ∀ b, (mirroring keys etag).Triple t (Under t κ J) (f b) (Post R fun _ _ => True)) :
    (mirroring keys etag).Triple t (Under t κ J) (p >>= f) (Post R fun _ _ => True) := by
  refine triple_bind (R := fun _ => Under t κ J) (triple_post (triple_meek made robust) ?_) hf
  rintro (e | b) s _ h
  · exact trivial
  · exact h

theorem lift_step {β : Type} {P : Site → Prop} {x : Except Exc β} {f : β → Caching α}
    {R : α → Site → Prop}
    (hf : ∀ b, x = .ok b → (mirroring keys etag).Triple t P (f b) (Post R fun _ _ => True)) :
    (mirroring keys etag).Triple t P (liftM x >>= f) (Post R fun _ _ => True) := by
  cases x with
  | ok b => exact hf b rfl
  | error e => exact triple_raise fun _ _ _ => trivial

/-! ### Evictions -/

theorem meek_removeEntry (key : Key) : (removeEntry key).Calls Meek :=
  calls_removeEntry key (fun _ => trivial) fun _ => trivial

theorem triple_evictEntry (robust : Robust keys t κ J) (now freed : ℚ) (entry : Entry) :
    (mirroring keys etag).Triple t (Under t κ J) (evictEntry now freed entry)
      (Post (fun _ => Under t κ J) fun _ _ => True) := by
  refine triple_bind (triple_tryAcquire robust entry.key (some now)) fun acquired => ?_
  cases acquired with
  | false => exact triple_ret fun _ _ h => h
  | true =>
      refine triple_leaving (R := fun _ => J) (fun _ => robust.relock entry.key) ?_
      refine meek_step (meek_removeEntry _) (robust.relock _) fun _ => lift_step fun size _ => ?_
      exact triple_ret fun _ _ h => h

theorem triple_evictCandidates (robust : Robust keys t κ J) (needBytes : Int) (now freed : ℚ)
    (candidates : List Entry) :
    (mirroring keys etag).Triple t (Under t κ J) (evictCandidates needBytes now freed candidates)
      (Post (fun _ => Under t κ J) fun _ _ => True) := by
  induction candidates generalizing freed with
  | nil => exact triple_ret fun _ _ h => h
  | cons entry candidates ih =>
      refine triple_ite (fun _ => triple_ret fun _ _ h => h) fun _ => ?_
      exact triple_bind (triple_evictEntry robust now freed entry) fun freed => ih freed

theorem triple_evictLru (robust : Robust keys t κ J) (needBytes : Int) (since : Option ℚ) :
    (mirroring keys etag).Triple t (Under t κ J) (evictLru needBytes since)
      (Post (fun _ => Under t κ J) fun _ _ => True) := by
  refine meek_step (calls_collectStats trivial trivial fun _ => trivial) robust fun entries => ?_
  refine meek_step (Program.calls_perform trivial) robust fun now => lift_step fun candidates _ => ?_
  exact triple_evictCandidates robust needBytes now 0 candidates

theorem triple_evictLruIfNeeded (robust : Robust keys t κ J) (settings : Settings) (newSize : Int)
    (since : Option ℚ) :
    (mirroring keys etag).Triple t (Under t κ J) (evictLruIfNeeded settings newSize since)
      (Post (fun _ => Under t κ J) fun _ _ => True) := by
  refine meek_step (calls_calculateTotalSize trivial trivial fun _ => trivial) robust fun total => ?_
  exact triple_ite (fun _ => triple_ret fun _ _ h => h) fun _ => triple_evictLru robust _ since

end Rules

end AcojWorker.FileCache.Mirror
