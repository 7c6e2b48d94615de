import AcojWorker.Cache.AtomicStore
import AcojWorker.Cache.Recency

/-!
# The cache beside its remote storage

Objects are uploaded and deleted while requests are under way, and every content that an object
has had is remembered with its moments. A thread remembers when its request began, and the ETag
that it has been told until it takes the time. Everything else is the disk of the cache, whose
calls may fail at any time.
-/

namespace AcojWorker.FileCache

open Python Effect Discipline

/-! ### The storage and its answers -/

/-- The cache, what the storage holds and has held, and what is remembered of each thread. -/
structure Site where
  world : World
  objects : String → Option Bytes
  had : String → Bytes → ℚ → Prop
  told : Nat → Option (String × String)
  began : Nat → ℚ

namespace Site

def withWorld (s : Site) (world : World) : Site := { s with world := world }

def tell (s : Site) (t : Nat) (answer : Option (String × String)) : Site :=
  { s with told := Function.update s.told t answer }

/-- A request begins. -/
def begin (s : Site) (t : Nat) : Site :=
  { s.tell t none with began := Function.update s.began t s.world.clock }

/-- Time passes; the objects stay what they are. -/
def advance (s : Site) (clock : ℚ) : Site where
  world := { s.world with clock := clock }
  objects := s.objects
  had objectName content moment := s.had objectName content moment ∨
    s.objects objectName = some content ∧ s.world.clock ≤ moment ∧ moment ≤ clock
  told := s.told
  began := s.began

/-- An object is uploaded or deleted. -/
def change (s : Site) (name : String) (content : Option Bytes) : Site where
  world := s.world
  objects := Function.update s.objects name content
  had objectName content' moment := s.had objectName content' moment ∨
    objectName = name ∧ content = some content' ∧ moment = s.world.clock
  told := s.told
  began := s.began

/-- An empty cache beside some objects. -/
def start (clock : ℚ) (objects : String → Option Bytes) : Site where
  world := .start clock
  objects := objects
  had objectName content moment := objects objectName = some content ∧ moment = clock
  told _ := none
  began _ := clock

/-- The effect of a call: the storage answers for the objects it holds, if it can be reached. -/
def exec (etag : Bytes → String) (t : Nat) :
    (op : CacheOp) → Site → Except Exc op.Answer → Site → Prop
  | .ensureRoot, s, _, s' => s' = s.begin t
  | .now, s, r, s' => r = .ok s.world.clock ∧ s' = s.tell t none
  | .headObject objectName, s, r, s' =>
      (∃ e, r = .error e ∧ s' = s.tell t none) ∨
        r = .ok ((s.objects objectName).map etag) ∧
          s' = s.tell t ((s.objects objectName).map fun content => (objectName, etag content))
  | .download objectName, s, r, s' =>
      (∃ e, r = .error e ∧ s' = s) ∨
        ∃ content, s.objects objectName = some content ∧ r = .ok content ∧
          s' = s.withWorld
            { s.world with fetched := Function.update s.world.fetched t (some content) }
  | op, s, r, s' => ∃ w, FileCache.exec t op s.world r w ∧ s' = s.withWorld w

end Site

/-- Requests and remote changes, in any order. -/
def mirror (etag : Bytes → String) : Machine CacheCalls Exc Site where
  exec := Site.exec etag
  drift s s' := (∃ clock, s.world.clock ≤ clock ∧ s' = s.advance clock) ∨
    ∃ name content, s' = s.change name content

namespace Mirror

section Answers

variable {etag : Bytes → String} {t : Nat} {op : CacheOp} {s s' : Site} {r : Except Exc op.Answer}

/-- On the cache itself a call does what it does on the disk. -/
theorem exec_world (h : Site.exec etag t op s r s') : exec t op s.world r s'.world := by
  cases op with
  | ensureRoot =>
      rw [show s' = s.begin t from h]
      rfl
  | now =>
      obtain ⟨rfl, rfl⟩ := h
      exact ⟨rfl, rfl⟩
  | headObject objectName =>
      rcases h with ⟨e, rfl, rfl⟩ | ⟨rfl, rfl⟩ <;> rfl
  | download objectName =>
      rcases h with ⟨e, rfl, rfl⟩ | ⟨content, -, rfl, rfl⟩
      · exact .inl ⟨e, rfl, rfl⟩
      · exact .inr ⟨content, rfl, rfl⟩
  | _ =>
      obtain ⟨w, answers, rfl⟩ := h
      exact answers

/-- What a call of a thread leaves as it is beside the cache. -/
structure Remembers (t : Nat) (s s' : Site) : Prop where
  objects : s'.objects = s.objects
  had : s'.had = s.had
  told : ∀ u, u ≠ t → s'.told u = s.told u
  began : ∀ u, u ≠ t → s'.began u = s.began u
  begun : s'.began t = s.began t ∨ s'.began t = s.world.clock

theorem remembers_withWorld (t : Nat) (s : Site) (w : World) : Remembers t s (s.withWorld w) where
  objects := rfl
  had := rfl
  told _ _ := rfl
  began _ _ := rfl
  begun := .inl rfl

theorem remembers_tell (t : Nat) (s : Site) (answer : Option (String × String)) :
    Remembers t s (s.tell t answer) where
  objects := rfl
  had := rfl
  told _ other := Function.update_of_ne other ..
  began _ _ := rfl
  begun := .inl rfl

theorem remembers_exec (h : Site.exec etag t op s r s') : Remembers t s s' := by
  cases op with
  | ensureRoot =>
      rw [show s' = s.begin t from h]
      exact { remembers_tell t s none with
        began := fun _ other => Function.update_of_ne other ..
        begun := .inr (Function.update_self ..) }
  | now =>
      obtain ⟨-, rfl⟩ := h
      exact remembers_tell t s none
  | headObject objectName =>
      rcases h with ⟨e, -, rfl⟩ | ⟨-, rfl⟩ <;> exact remembers_tell t s _
  | download objectName =>
      rcases h with ⟨e, -, rfl⟩ | ⟨content, -, -, rfl⟩
      · exact remembers_withWorld t s' s'.world
      · exact remembers_withWorld t s _
  | _ =>
      obtain ⟨w, -, rfl⟩ := h
      exact remembers_withWorld t s w

end Answers

/-! ### Names -/

/-- The key of an object that is addressed by its name. -/
def nameKey (objectName : String) : Key := "name:" ++ objectName

theorem cacheKey_name (objectName : String) : cacheKey "" objectName = nameKey objectName :=
  if_neg fun h => h rfl

theorem nameKey_injective {objectName objectName' : String}
    (same : nameKey objectName = nameKey objectName') : objectName = objectName' := by
  have chars := congrArg String.toList same
  exact String.toList_inj.mp (by simpa [nameKey] using chars)

theorem cacheKey_eq_nameKey {sha256 objectName objectName' : String}
    (same : cacheKey sha256 objectName = nameKey objectName') :
    sha256 = "" ∧ objectName = objectName' := by
  by_cases declared : sha256 = ""
  · subst declared
    exact ⟨rfl, nameKey_injective ((cacheKey_name objectName).symm.trans same)⟩
  · rw [cacheKey, if_pos declared] at same
    have chars := congrArg String.toList same
    simp [nameKey] at chars

/-- No two keys share a file. -/
def OwnFiles (keys : Set Key) : Prop :=
  ∀ key ∈ keys, ∀ key' ∈ keys, ∀ path, Owns key path → Owns key' path → key' = key

/-! ### The discipline -/

section Mirroring

variable (keys : Set Key) (etag : Bytes → String)

/-- A document records the ETag of a content, and a moment at which the object had it. -/
def Records (had : Bytes → ℚ → Prop) (document : Value) (content : Bytes) : Prop :=
  document.get "etag" .none = .ok (.str (etag content)) ∧
    ∃ moment, document.get "last_validated_at" (.int 0) = .ok (.float moment) ∧ had content moment

/-- What a document says of an object that is addressed by its name is true of the data file. -/
def Describes (key : Key) (document : Value) (s : Site) : Prop :=
  ∀ objectName, key = nameKey objectName → ∀ content,
    s.world.files (dataPath key) = some (.data content) →
      Records etag (s.had objectName) document content

/-- The meta file of such an object describes its data file. -/
def Paired (key : Key) (s : Site) : Prop :=
  ∀ file, s.world.files (metaPath key) = some file →
    ∃ document, file = .json document ∧ Describes etag key document s

/-- What is known of the past and of the files. -/
structure Mirrored (s : Site) : Prop where
  current : ∀ objectName content, s.objects objectName = some content →
    s.had objectName content s.world.clock
  past : ∀ objectName content moment, s.had objectName content moment → moment ≤ s.world.clock
  begun : ∀ t, s.began t ≤ s.world.clock
  contents : ∀ key ∈ keys, ∀ file, s.world.files (dataPath key) = some file →
    ∃ content, file = .data content
  paired : ∀ key ∈ keys, Paired etag key s

/-- What other threads and the storage leave alone: the locks of a thread, the data files under
them unless they are removed, its temporary files, and what is remembered. -/
structure Untouched (t : Nat) (s s' : Site) : Prop where
  depth : ∀ key, s'.world.depth t key = s.world.depth t key
  data : ∀ key ∈ keys, 0 < s.world.depth t key → ∀ file,
    s'.world.files (dataPath key) = some file → s.world.files (dataPath key) = some file
  temps : ∀ temp x, s.world.temps temp = some (t, x) → s'.world.temps temp = some (t, x)
  told : s'.told t = s.told t
  began : s'.began t = s.began t
  had : ∀ objectName content moment, s.had objectName content moment →
    s'.had objectName content moment

/-- An object whose name a thread has locked still has the ETag that the thread has been told. -/
def StillTold (t : Nat) (s : Site) : Prop :=
  ∀ objectName tag, s.told t = some (objectName, tag) → 0 < s.world.depth t (nameKey objectName) →
    (s.objects objectName).map etag = some tag

/-- The object has not changed since the thread was told its ETag: neither when its content is
downloaded nor when the thread takes the time of its validation. And no older meta file is left
when a data file takes its place. -/
def Consistent (t : Nat) : CacheOp → Site → Prop
  | .download _, s => StillTold etag t s
  | .now, s => StillTold etag t s
  | .replace _ path, s => ∀ objectName, nameKey objectName ∈ keys →
      path = dataPath (nameKey objectName) → s.world.files (metaPath (nameKey objectName)) = none
  | _, _ => True

/-- The path that a request for an object returns is that of a content which the object had
during the request, or not long before. -/
def BoundedStale (t : Nat) : CacheOp → Site → Prop
  | .release key (.ok (some path)), s => ∀ objectName, key = nameKey objectName →
      ∀ file, s.world.files path = some file →
        ∃ content moment, file = .data content ∧ s.had objectName content moment ∧
          s.began t - revalidateInterval ≤ moment ∧ moment ≤ s.world.clock
  | _, _ => True

variable {etag} in
theorem Records.mono {had had' : Bytes → ℚ → Prop} {document : Value} {content : Bytes}
    (records : Records etag had document content) (later : ∀ c m, had c m → had' c m) :
    Records etag had' document content := by
  obtain ⟨tag, moment, validated, h⟩ := records
  exact ⟨tag, moment, validated, later content moment h⟩

variable {keys etag} in
/-- Removing files and remembering more spoils no description. -/
theorem Paired.later {key : Key} {s s' : Site} (paired : Paired etag key s)
    (files : ∀ path file, s'.world.files path = some file → s.world.files path = some file)
    (had : ∀ o c m, s.had o c m → s'.had o c m) : Paired etag key s' := by
  intro file there
  obtain ⟨document, rfl, describes⟩ := paired file (files _ file there)
  refine ⟨document, rfl, fun o named content data => ?_⟩
  exact (describes o named content (files _ _ data)).mono (had o)

def mirroring : Discipline (mirror etag) where
  inv := Mirrored keys etag
  rely := Untouched keys
  idle _ _ := True
  allowed := Consistent keys etag
  good := BoundedStale
  rely_refl _ _ := ⟨fun _ => rfl, fun _ _ _ _ h => h, fun _ _ h => h, rfl, rfl, fun _ _ _ h => h⟩
  rely_trans := by
    intro t s s' s'' first second
    refine ⟨fun key => (second.depth key).trans (first.depth key), fun key mem held file there => ?_,
      fun temp x hx => second.temps temp x (first.temps temp x hx), second.told.trans first.told,
      second.began.trans first.began, fun o c m h => second.had o c m (first.had o c m h)⟩
    exact first.data key mem held file
      (second.data key mem (by rwa [first.depth]) file there)
  idle_stable _ _ := trivial
  drift_ok := by
    rintro s _ inv (⟨clock, later, rfl⟩ | ⟨name, content, rfl⟩)
    · refine ⟨⟨fun o c h => .inr ⟨h, later, le_rfl⟩, ?_, fun t => (inv.begun t).trans later,
        inv.contents, fun key mem => (inv.paired key mem).later (fun _ _ h => h) ?_⟩, fun t => ?_⟩
      · rintro o c m (h | ⟨-, -, h⟩)
        · exact (inv.past o c m h).trans later
        · exact h
      · exact fun _ _ _ h => .inl h
      · exact ⟨fun _ => rfl, fun _ _ _ _ h => h, fun _ _ h => h, rfl, rfl, fun _ _ _ h => .inl h⟩
    · refine ⟨⟨fun o c h => ?_, ?_, inv.begun, inv.contents,
        fun key mem => (inv.paired key mem).later (fun _ _ h => h) ?_⟩, fun t => ?_⟩
      · change Function.update s.objects name content o = some c at h
        by_cases here : o = name
        · subst here
          rw [Function.update_self] at h
          exact .inr ⟨rfl, h, rfl⟩
        · rw [Function.update_of_ne here] at h
          exact .inl (inv.current o c h)
      · rintro o c m (h | ⟨-, -, rfl⟩)
        · exact inv.past o c m h
        · exact le_rfl
      · exact fun _ _ _ h => .inl h
      · exact ⟨fun _ => rfl, fun _ _ _ _ h => h, fun _ _ h => h, rfl, rfl, fun _ _ _ h => .inl h⟩

end Mirroring

end Mirror

end AcojWorker.FileCache
